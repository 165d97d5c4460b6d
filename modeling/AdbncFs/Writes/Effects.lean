import AdbncFs.System.Linking

/-!
# What the callbacks do to `FileStatus`

For each callback that reads, writes, flushes, closes or renames a file: the pushes it asks
for and the entries it leaves, as functions of the entries before it. Everything that is
proved about pushes follows from these step lemmas.
-/

namespace AdbncFs

open Text Interaction

variable {ε : Type} (env : Env ε) (g : Globals)

@[simp] theorem fileStatus_adbncPushPullCmd (fPush : Bool) (l r : Str) (w : World ε) :
    ((adbncPushPullCmd g fPush l r).run env.handle w).2.fileStatus = w.fileStatus :=
  run_keepsStatus env (uses_adbncPushPullCmd (P := Sys.Op.KeepsStatus) (fun _ => trivial)
    (fun _ _ => trivial) g fPush l r trivial trivial) w

/-! ## Opening, reading and writing -/

/-- What an open leaves: what `prepareCopy` does, and the local `open` when that succeeds. -/
theorem open_step (p : Str) (pFi : FileInfo) (w : World ε) :
    ((Callback.open' p pFi).step env g w).2 =
      let r := (prepareCopy g p).run env.handle w
      if r.1 = 0 then
        { r.2 with env := (env.syscall (.open' (g.localPath p) pFi.flags) r.2.env).2 }
      else r.2 := by
  simp only [Callback.step, Callback.program, Program.run_bind, run_liftM, Program.run_pure,
    adbnc_open, Program.run_ite]
  split
  · simp only [run_syscall]
    split <;> rfl
  · rfl

theorem write_step (p pcBuf : Str) (iOffset : Int) (pFi : FileInfo) (w : World ε) :
    ((Callback.write p pcBuf iOffset pFi).step env g w).1.pushes = [] ∧
      ((Callback.write p pcBuf iOffset pFi).step env g w).2.fileStatus =
        w.fileStatus.setPendingOpen p true true := by
  simp only [Callback.step, Callback.program, adbnc_write, Program.run_bind, run_liftM,
    run_setFileStatus, run_syscall]
  split <;> exact ⟨rfl, rfl⟩

theorem read_step (p : Str) (iSize : Nat) (iOffset : Int) (pFi : FileInfo) (w : World ε) :
    ((Callback.read p iSize iOffset pFi).step env g w).1.pushes = [] ∧
      ((Callback.read p iSize iOffset pFi).step env g w).2.fileStatus =
        w.fileStatus.setPendingOpen p true false := by
  simp only [Callback.step, Callback.program, adbnc_read, Program.run_bind, run_liftM,
    run_setFileStatus]
  split
  · simp only [Program.run_bind, run_liftM, run_syscall]
    split <;> exact ⟨rfl, rfl⟩
  · exact ⟨rfl, rfl⟩

/-! ## Flushing -/

/-- The push that a flush asks for. -/
def FileStatus.Entry.flushed (e : FileStatus.Entry) (strFromLocalPath pcPath : Str) : Pushes :=
  if e.m_fPendingOpen ∧ e.m_fForWrite then
    [(if e.m_strRenamedFromLocal ≠ [] then e.m_strRenamedFromLocal else strFromLocalPath, pcPath)]
  else []

/-- The entry that a flush leaves. -/
def FileStatus.Entry.afterFlush (e : FileStatus.Entry) : FileStatus.Entry :=
  if e.m_fPendingOpen then (e.setPendingOpen false false).clearRenamed else e

theorem FileStatus.Entry.afterFlush_pendingOpen (e : FileStatus.Entry) :
    e.afterFlush.m_fPendingOpen = false := by
  unfold afterFlush
  split
  · rfl
  · rename_i hp
    exact Bool.eq_false_iff.mpr hp

/-- A flush does not make an entry one of a renamed file. -/
theorem FileStatus.Entry.afterFlush_not_renamed {e : FileStatus.Entry}
    (h : e.m_strRenamedFromLocal = []) : e.afterFlush.m_strRenamedFromLocal = [] := by
  unfold afterFlush
  split
  · rfl
  · exact h

/-- The local `fsync` lets `adbnc_flush` go on. -/
def FlushOk (pFi : FileInfo) (e : ε) : Prop :=
  match (env.syscall (.fsync pFi.fh) e).1 with
  | .ok _ => True
  | .error errno => errno = EBADF

/-- Then `adbnc_flush` is its second part. -/
theorem run_flush {p : Str} {pFi : FileInfo} {w : World ε} (h : FlushOk env pFi w.env)
    (ps : Pushes) :
    (adbnc_flush g p pFi).run (env.system g) (w, ps) =
      (adbnc_flush.flushPending g p).run (env.system g)
        ({ w with env := (env.syscall (.fsync pFi.fh) w.env).2 }, ps) := by
  unfold FlushOk at h
  rw [adbnc_flush, Program.run_bind, run_liftM, run_syscall]
  dsimp only
  split
  · rename_i errno he
    rw [he] at h
    rw [if_pos h]
  · rfl

theorem entryFlush_run (e : FileStatus.Entry) (p l : Str) (w : World ε) (ps : Pushes)
    (he : w.fileStatus.entry p = e) :
    ((e.flush p l).run (env.system g) (w, ps)).2.2 = ps ++ e.flushed l p ∧
      (e.flushed l p = [] → ((e.flush p l).run (env.system g) (w, ps)).1 = 0) ∧
      ∀ q, ((e.flush p l).run (env.system g) (w, ps)).2.1.fileStatus.entry q =
        if q = p then e.afterFlush else w.fileStatus.entry q := by
  subst he
  unfold FileStatus.Entry.flush FileStatus.Entry.flushed FileStatus.Entry.afterFlush
  cases hp : (w.fileStatus.entry p).m_fPendingOpen with
  | false =>
    simp only [Bool.false_eq_true, if_false, Program.run_pure, false_and, List.append_nil,
      true_and, forall_const]
    intro q
    split
    · rename_i hq
      rw [hq]
    · rfl
  | true =>
    by_cases hr : (w.fileStatus.entry p).m_strRenamedFromLocal = [] <;>
      cases hw : (w.fileStatus.entry p).m_fForWrite <;>
      refine ⟨by simp [hr], by simp [hr], fun q => ?_⟩ <;>
      by_cases hq : q = p <;>
      simp [hr, hw, hq, FileStatus.Entry.setPendingOpen, FileStatus.Entry.clearRenamed]

theorem entry_of_none {s : FileStatus} {p : Str} (h : s p = none) :
    s.entry p = FileStatus.Entry.new := by
  rw [FileStatus.entry, h]
  rfl

theorem entry_of_some {s : FileStatus} {p : Str} {e : FileStatus.Entry} (h : s p = some e) :
    s.entry p = e := by
  rw [FileStatus.entry, h]
  rfl

theorem statusFlush_run (p l : Str) (w : World ε) (ps : Pushes) :
    ((FileStatus.flush p l).run (env.system g) (w, ps)).2.2 =
        ps ++ (w.fileStatus.entry p).flushed l p ∧
      ((w.fileStatus.entry p).flushed l p = [] →
        ((FileStatus.flush p l).run (env.system g) (w, ps)).1 = 0) ∧
      ∀ q, ((FileStatus.flush p l).run (env.system g) (w, ps)).2.1.fileStatus.entry q =
        if q = p then (w.fileStatus.entry p).afterFlush else w.fileStatus.entry q := by
  simp only [FileStatus.flush, Program.run_bind, run_liftM, run_fileStatus]
  cases h : w.fileStatus p with
  | none =>
    refine ⟨?_, fun _ => rfl, fun q => ?_⟩
    · simp [entry_of_none h, FileStatus.Entry.flushed, FileStatus.Entry.new]
    · by_cases hq : q = p
      · subst hq
        simp [entry_of_none h, FileStatus.Entry.afterFlush, FileStatus.Entry.new]
      · simp [hq]
  | some e =>
    rw [entry_of_some h]
    exact entryFlush_run env g e p l w ps (entry_of_some h)

theorem flushPending_run (p : Str) (w : World ε) (ps : Pushes) :
    ((adbnc_flush.flushPending g p).run (env.system g) (w, ps)).2.2 =
        ps ++ (w.fileStatus.entry p).flushed (g.localPath p) p ∧
      ((w.fileStatus.entry p).flushed (g.localPath p) p = [] →
        ((adbnc_flush.flushPending g p).run (env.system g) (w, ps)).1 = 0) ∧
      ∀ q, ((adbnc_flush.flushPending g p).run (env.system g) (w, ps)).2.1.fileStatus.entry q =
        if q = p then (w.fileStatus.entry p).afterFlush else w.fileStatus.entry q := by
  simp only [adbnc_flush.flushPending, Program.run_bind, run_liftM, run_fileStatus, Program.run_ite,
    run_invalidate]
  split
  · exact statusFlush_run env g p _ { w with fileCache := w.fileCache.invalidate p } ps
  · exact statusFlush_run env g p _ w ps

theorem flush_step {p : Str} {pFi : FileInfo} {w : World ε} (h : FlushOk env pFi w.env) :
    ((Callback.flush p pFi).step env g w).1.pushes =
        (w.fileStatus.entry p).flushed (g.localPath p) p ∧
      ((w.fileStatus.entry p).flushed (g.localPath p) p = [] →
        ((Callback.flush p pFi).step env g w).1.result = 0) ∧
      ∀ q, ((Callback.flush p pFi).step env g w).2.fileStatus.entry q =
        if q = p then (w.fileStatus.entry p).afterFlush else w.fileStatus.entry q := by
  rw [Callback.step, Callback.program, run_flush env g h]
  exact flushPending_run env g p { w with env := (env.syscall (.fsync pFi.fh) w.env).2 } []

/-- The push that an fsync asks for. -/
def FileStatus.Entry.synced (e : FileStatus.Entry) (strLocalPath pcPath : Str) : Pushes :=
  if e.m_fPendingOpen then [(strLocalPath, pcPath)] else []

/-- The entry that an fsync leaves. -/
def FileStatus.Entry.afterSync (e : FileStatus.Entry) : FileStatus.Entry :=
  if e.m_fPendingOpen then e.setPendingOpen false false else e

theorem FileStatus.Entry.afterSync_pendingOpen (e : FileStatus.Entry) :
    e.afterSync.m_fPendingOpen = false := by
  unfold afterSync
  split
  · rfl
  · rename_i hp
    exact Bool.eq_false_iff.mpr hp

theorem FileStatus.Entry.afterSync_renamed (e : FileStatus.Entry) :
    e.afterSync.m_strRenamedFromLocal = e.m_strRenamedFromLocal := by
  unfold afterSync
  split
  · rfl
  · rfl

/-- What `adbnc_fsync` does when the local `fsync` succeeds. -/
theorem run_fsync {p : Str} {pFi : FileInfo} {w : World ε}
    (h : ∃ v, (env.syscall (.fsync pFi.fh) w.env).1 = .ok v) (ps : Pushes) :
    (adbnc_fsync g p pFi).run (env.system g) (w, ps) =
      let w₁ := { w with env := (env.syscall (.fsync pFi.fh) w.env).2 }
      let a := (adbncPushPullCmd g true (g.localPath p) p).run env.handle w₁
      if (w.fileStatus.entry p).m_fPendingOpen = true then
        (a.1, ({ a.2 with
          fileStatus := w.fileStatus.setPendingOpen p false false
          fileCache := a.2.fileCache.invalidate p }, ps ++ [(g.localPath p, p)]))
      else (0, (w₁, ps)) := by
  obtain ⟨v, hv⟩ := h
  simp only [adbnc_fsync, Program.run_bind, run_liftM, run_syscall, hv, run_fileStatus,
    Program.run_ite, run_adbncPush, run_setFileStatus, run_invalidate, Program.run_pure,
    fileStatus_adbncPushPullCmd, FileStatus.pendingOpen_eq]

theorem fsync_step {p : Str} {pFi : FileInfo} {w : World ε}
    (h : ∃ v, (env.syscall (.fsync pFi.fh) w.env).1 = .ok v) :
    ((Callback.fsync p pFi).step env g w).1.pushes =
        (w.fileStatus.entry p).synced (g.localPath p) p ∧
      ∀ q, ((Callback.fsync p pFi).step env g w).2.fileStatus.entry q =
        if q = p then (w.fileStatus.entry p).afterSync else w.fileStatus.entry q := by
  rw [Callback.step, Callback.program, run_fsync env g h, FileStatus.Entry.synced,
    FileStatus.Entry.afterSync]
  dsimp only
  split
  · simp
  · refine ⟨rfl, fun q => ?_⟩
    split
    · rename_i hq
      rw [hq]
    · rfl

/-! ## Closing and renaming -/

/-- A release changes nothing where there is no entry; else it clears the marks, after a close
of the handle. -/
theorem run_release (p : Str) (pFi : FileInfo) (w : World ε) (ps : Pushes) :
    ((adbnc_release p pFi).run (env.system g) (w, ps)).2 =
      match w.fileStatus p with
      | none => (w, ps)
      | some _ => ({ w with
          fileStatus := w.fileStatus.setPendingOpen p false false
          env := if pFi.fh ≠ -1 then (env.syscall (.close pFi.fh) w.env).2 else w.env }, ps) := by
  simp only [adbnc_release, FileStatus.release, Program.run_bind, run_liftM, run_fileStatus]
  cases w.fileStatus p with
  | none => rfl
  | some e =>
    simp only [FileStatus.Entry.release, Program.run_bind, Program.run_ite, run_liftM,
      run_setFileStatus, Program.run_pure, run_syscall]
    split
    · split <;> rfl
    · rfl

theorem release_step (p : Str) (pFi : FileInfo) (w : World ε) :
    ((Callback.release p pFi).step env g w).1.pushes = [] ∧
      ∀ q, ((Callback.release p pFi).step env g w).2.fileStatus.entry q =
        if q = p then (w.fileStatus.entry p).setPendingOpen false false
        else w.fileStatus.entry q := by
  rw [Callback.step, Callback.program, run_release]
  cases h : w.fileStatus p with
  | none =>
    refine ⟨rfl, fun q => ?_⟩
    by_cases hq : q = p
    · rw [if_pos hq, hq]
      exact (entry_of_none h).trans (by rw [entry_of_none h]; rfl)
    · rw [if_neg hq]
  | some e => exact ⟨rfl, fun q => FileStatus.entry_setPendingOpen _ p q false false⟩

theorem rename_step (a b : Str) (w : World ε) :
    ((Callback.rename a b).step env g w).1.pushes = [] ∧
      ∀ q, ((Callback.rename a b).step env g w).2.fileStatus.entry q =
        if (w.fileStatus.entry a).m_fPendingOpen ∧ q = b then
          (w.fileStatus.entry b).setRenamed (g.localPath a)
        else w.fileStatus.entry q := by
  simp only [Callback.step, Callback.program, adbnc_rename, Program.run_bind, run_liftM,
    run_adbncShell, run_invalidate, run_fileStatus, Program.run_ite, run_setFileStatus,
    Program.run_pure, FileStatus.pendingOpen_eq]
  split
  · rename_i h
    refine ⟨rfl, fun q => ?_⟩
    simp [h]
  · rename_i h
    refine ⟨rfl, fun q => ?_⟩
    rw [if_neg fun hc => h hc.1]

end AdbncFs
