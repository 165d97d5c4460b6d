import AdbncFs.Writes.Answers

/-!
# Flush against fsync

`adbnc_flush` and `adbnc_fsync` decide separately whether to push a file, from which local
file, and what to keep of its entry. `flush_fsync_agree_iff` says in which states they come
to the same: where nothing is pending, or where the file is marked for writing and was not
renamed. An fsync looks neither at the mark for writing nor at the renamed file.
-/

namespace AdbncFs

open Text Interaction

variable {ε : Type} {env : Env ε} (g : Globals)

/-! ## The entry in the map -/

theorem modify_eq {s : FileStatus} {p : Str} {e : FileStatus.Entry} (h : s p = some e)
    (f : FileStatus.Entry → FileStatus.Entry) : s.modify p f p = some (f e) := by
  unfold FileStatus.modify
  rw [Function.update_self, entry_of_some h]

theorem entryFlush_status (env : Env ε) {e : FileStatus.Entry} {p : Str} (l : Str) {w : World ε}
    (ps : Pushes) (he : w.fileStatus p = some e) :
    ((e.flush p l).run (env.system g) (w, ps)).2.1.fileStatus p = some e.afterFlush := by
  unfold FileStatus.Entry.flush FileStatus.Entry.afterFlush
  by_cases hp : e.m_fPendingOpen = true
  · rw [if_pos hp, if_pos hp]
    by_cases hr : e.m_strRenamedFromLocal = []
    · have hclear : (e.setPendingOpen false false).clearRenamed = e.setPendingOpen false false := by
        rw [FileStatus.Entry.clearRenamed, FileStatus.Entry.setPendingOpen, ← hr]
      cases hw : e.m_fForWrite <;> simp [hr, hclear, modify_eq he]
    · cases hw : e.m_fForWrite <;>
        simp [hr, modify_eq (modify_eq he _), FileStatus.Entry.setPendingOpen,
          FileStatus.Entry.clearRenamed]
  · rw [if_neg hp, if_neg hp]
    exact he

theorem statusFlush_status (env : Env ε) (p l : Str) (w : World ε) (ps : Pushes) :
    ((FileStatus.flush p l).run (env.system g) (w, ps)).2.1.fileStatus p =
      (w.fileStatus p).map (·.afterFlush) := by
  simp only [FileStatus.flush, Program.run_bind, run_liftM, run_fileStatus]
  cases h : w.fileStatus p with
  | none => exact h
  | some e => exact entryFlush_status g env l ps h

theorem flush_status {p : Str} {pFi : FileInfo} {w : World ε} (h : FlushOk env pFi w.env) :
    ((Callback.flush p pFi).step env g w).2.fileStatus p =
      (w.fileStatus p).map (·.afterFlush) := by
  rw [Callback.step, Callback.program, run_flush env g h]
  simp only [adbnc_flush.flushPending, Program.run_bind, run_liftM, run_fileStatus,
    Program.run_ite, run_invalidate]
  split
  · rw [statusFlush_status]
  · rw [statusFlush_status]

theorem fsync_status {p : Str} {pFi : FileInfo} {w : World ε} (h : SyncOk env pFi w.env) :
    ((Callback.fsync p pFi).step env g w).2.fileStatus p =
      (w.fileStatus p).map (·.afterSync) := by
  rw [Callback.step, Callback.program, run_fsync env g h]
  cases hs : w.fileStatus p with
  | none => simp [entry_of_none hs, FileStatus.Entry.new, hs]
  | some e =>
    rw [entry_of_some hs]
    cases hp : e.m_fPendingOpen with
    | false => simp [hs, FileStatus.Entry.afterSync, hp]
    | true => simp [FileStatus.Entry.afterSync, hp, FileStatus.setPendingOpen, modify_eq hs]

/-! ## The two decisions -/

theorem flushed_eq_synced {e : FileStatus.Entry} {l p : Str} :
    e.flushed l p = e.synced l p ↔ e.m_fPendingOpen = false ∨ e.m_fForWrite = true ∧
      (e.m_strRenamedFromLocal = [] ∨ e.m_strRenamedFromLocal = l) := by
  unfold FileStatus.Entry.flushed FileStatus.Entry.synced
  cases e.m_fPendingOpen <;> cases e.m_fForWrite <;>
    by_cases hr : e.m_strRenamedFromLocal = [] <;> simp [hr]

theorem afterFlush_eq_afterSync {e : FileStatus.Entry} :
    e.afterFlush = e.afterSync ↔ e.m_fPendingOpen = false ∨ e.m_strRenamedFromLocal = [] := by
  unfold FileStatus.Entry.afterFlush FileStatus.Entry.afterSync
  cases e.m_fPendingOpen <;> simp [FileStatus.Entry.clearRenamed, FileStatus.Entry.setPendingOpen,
    eq_comm]

/-- A flush and an fsync of `p` ask for the same pushes and leave the same entry for `p`. -/
def FlushFsyncAgree (env : Env ε) (p : Str) (pFi : FileInfo) (w : World ε) : Prop :=
  ((Callback.flush p pFi).step env g w).1.pushes =
      ((Callback.fsync p pFi).step env g w).1.pushes ∧
    ((Callback.flush p pFi).step env g w).2.fileStatus p =
      ((Callback.fsync p pFi).step env g w).2.fileStatus p

/-- The entry for `p` is one that a flush and an fsync treat alike. -/
def TreatedAlike (p : Str) (s : FileStatus) : Prop :=
  ∀ e, s p = some e → e.m_fPendingOpen = true →
    e.m_fForWrite = true ∧ e.m_strRenamedFromLocal = []

/-- After any run a flush and an fsync of `p` agree if and only if nothing is pending there, or
the file is marked for writing and was not renamed. -/
theorem flush_fsync_agree_iff {w : World ε} {cs : List Callback} {p : Str} {pFi : FileInfo}
    (hsync : SyncOk env pFi (final (Callback.step env g) cs w).env) :
    FlushFsyncAgree g env p pFi (final (Callback.step env g) cs w) ↔
      TreatedAlike p (final (Callback.step env g) cs w).fileStatus := by
  generalize final (Callback.step env g) cs w = s at hsync ⊢
  have hflush := hsync.flushOk
  unfold FlushFsyncAgree TreatedAlike
  rw [(flush_step env g hflush).1, (fsync_step env g hsync).1, flush_status g hflush,
    fsync_status g hsync, flushed_eq_synced]
  cases h : s.fileStatus p with
  | none => simp [entry_of_none h, FileStatus.Entry.new]
  | some e =>
    rw [entry_of_some h, Option.map_some, Option.map_some, Option.some.injEq,
      afterFlush_eq_afterSync]
    simp only [Option.some.injEq, forall_eq']
    cases hp : e.m_fPendingOpen with
    | false => simp
    | true =>
      simp only [reduceCtorEq, false_or, forall_const]
      constructor
      · intro hc
        exact ⟨hc.1.1, hc.2⟩
      · intro hc
        exact ⟨⟨hc.1, Or.inl hc.2⟩, hc.2⟩

theorem flush_fsync_agree_written :
    FlushFsyncAgree exampleGlobals Env.obliging ['/', 'a'] ⟨5, 2⟩
        (final (Callback.step Env.obliging exampleGlobals)
          [.write ['/', 'a'] ['x'] 0 ⟨5, 2⟩] World.start) ↔
      TreatedAlike ['/', 'a'] (final (Callback.step Env.obliging exampleGlobals)
        [.write ['/', 'a'] ['x'] 0 ⟨5, 2⟩] World.start).fileStatus :=
  flush_fsync_agree_iff exampleGlobals ⟨0, rfl⟩

/-- After a read an fsync pushes the file, and a flush does not. -/
theorem flush_fsync_differ :
    let w := final (Callback.step Env.obliging exampleGlobals)
      [.read ['/', 'a'] 1 0 ⟨5, 2⟩] World.start
    SyncOk Env.obliging ⟨5, 2⟩ w.env ∧
      ((Callback.flush ['/', 'a'] ⟨5, 2⟩).step Env.obliging exampleGlobals w).1.pushes = [] ∧
      ((Callback.fsync ['/', 'a'] ⟨5, 2⟩).step Env.obliging exampleGlobals w).1.pushes =
        [(exampleGlobals.localPath ['/', 'a'], ['/', 'a'])] ∧
      ¬ FlushFsyncAgree exampleGlobals Env.obliging ['/', 'a'] ⟨5, 2⟩ w := by
  refine ⟨⟨0, rfl⟩, by decide +kernel, by decide +kernel, fun h => ?_⟩
  exact absurd h.1 (by decide +kernel)

end AdbncFs
