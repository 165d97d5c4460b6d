import AdbncFs.Writes.Releases

/-!
# Which files a flush pushes

The mark for write of an entry stands for a write that was made since the last release, and
since the last flush or fsync that got past its local `fsync`. A rename to a path marks it as
pending, but not for write, and an entry that is marked for write is pending already.
-/

namespace AdbncFs

open Text Interaction

/-- A local `fsync` of `fd`, with its answer. -/
def fsyncOf : Event Linked → Option (Int × Except Int Int)
  | ⟨.sys (.syscall (.fsync fd)), answer⟩ => some (fd, answer)
  | _ => none

def Observed.fsyncs (o : Observed) : List (Int × Except Int Int) := o.events.filterMap fsyncOf

/-- A write of `p`. -/
def Callback.WritesTo (p : Str) : Callback → Prop
  | write q _ _ _ => q = p
  | _ => False

/-- A release of `p`, a flush of `p` whose local `fsync` succeeded or failed with `EBADF`, or
an fsync of `p` whose local `fsync` succeeded. -/
def Finishes (p : Str) : Callback × Observed → Prop
  | (.release q _, _) => q = p
  | (.flush q pFi, o) =>
    q = p ∧ ((∃ v, (pFi.fh, .ok v) ∈ o.fsyncs) ∨ (pFi.fh, .error EBADF) ∈ o.fsyncs)
  | (.fsync q pFi, o) => q = p ∧ ∃ v, (pFi.fh, .ok v) ∈ o.fsyncs
  | _ => False

/-- `p` was written since the last call that finishes it. -/
def WrittenSince (p : Str) (T : CallTrace) : Prop :=
  Since (fun e => e.1.WritesTo p) (fun f => ¬ Finishes p f) T

/-- An entry that is marked for write is pending. -/
def FileStatus.Entry.Consistent (e : FileStatus.Entry) : Prop :=
  e.m_fForWrite = true → e.m_fPendingOpen = true

theorem FileStatus.Entry.Consistent.not_write {e : FileStatus.Entry} (h : e.Consistent)
    (hp : ¬ e.m_fPendingOpen = true) : e.m_fForWrite = false :=
  Bool.eq_false_iff.mpr fun hw => hp (h hw)

theorem FileStatus.Entry.Consistent.afterFlush {e : FileStatus.Entry} (h : e.Consistent) :
    e.afterFlush.m_fForWrite = false := by
  unfold FileStatus.Entry.afterFlush
  split
  · rfl
  · rename_i hp
    exact h.not_write hp

theorem FileStatus.Entry.Consistent.afterSync {e : FileStatus.Entry} (h : e.Consistent) :
    e.afterSync.m_fForWrite = false := by
  unfold FileStatus.Entry.afterSync
  split
  · rfl
  · rename_i hp
    exact h.not_write hp

section

variable {ε : Type} {env : Env ε} (g : Globals)

/-! ## What the local fsync answered -/

/-- A flush that ends at its local `fsync` makes no other one. -/
theorem flush_fsyncs {p : Str} {pFi : FileInfo} {w : World ε} (h : ¬ FlushOk env pFi w.env) :
    ∃ errno, errno ≠ EBADF ∧
      ((Callback.flush p pFi).observe env g w).1.fsyncs = [(pFi.fh, .error errno)] := by
  unfold FlushOk at h
  simp only [Callback.observe, Callback.program, adbnc_flush, Observed.fsyncs,
    Program.trace_bind, trace_liftM, run_liftM, run_syscall, trace_syscall]
  split
  · rename_i errno he
    rw [he] at h
    rw [if_neg h, he]
    exact ⟨errno, h, rfl⟩
  · rename_i v hv
    rw [hv] at h
    exact absurd trivial h

theorem fsync_fsyncs {p : Str} {pFi : FileInfo} {w : World ε} (h : ¬ SyncOk env pFi w.env) :
    ∃ errno, ((Callback.fsync p pFi).observe env g w).1.fsyncs = [(pFi.fh, .error errno)] := by
  simp only [Callback.observe, Callback.program, adbnc_fsync, Observed.fsyncs,
    Program.trace_bind, trace_liftM, run_liftM, run_syscall, trace_syscall]
  split
  · rename_i errno he
    rw [he]
    exact ⟨errno, rfl⟩
  · rename_i v hv
    exact absurd ⟨v, hv⟩ h

theorem flush_not_finishes {p q : Str} {pFi : FileInfo} {w : World ε}
    (h : ¬ FlushOk env pFi w.env) :
    ¬ Finishes p (.flush q pFi, ((Callback.flush q pFi).observe env g w).1) := by
  obtain ⟨errno, hne, hfsyncs⟩ := flush_fsyncs (p := q) g h
  rintro ⟨-, ⟨v, hv⟩ | herr⟩
  · rw [hfsyncs] at hv
    cases List.mem_singleton.mp hv
  · rw [hfsyncs] at herr
    cases List.mem_singleton.mp herr
    exact hne rfl

theorem fsync_not_finishes {p q : Str} {pFi : FileInfo} {w : World ε}
    (h : ¬ SyncOk env pFi w.env) :
    ¬ Finishes p (.fsync q pFi, ((Callback.fsync q pFi).observe env g w).1) := by
  obtain ⟨errno, hfsyncs⟩ := fsync_fsyncs (p := q) g h
  rintro ⟨-, v, hv⟩
  rw [hfsyncs] at hv
  cases List.mem_singleton.mp hv

/-! ## The mark for write -/

/-- Opening and truncating change the mark of the truncation only. -/
def KeepsMarks (s s' : FileStatus) : Prop :=
  ∀ p, (s'.entry p).m_fForWrite = (s.entry p).m_fForWrite ∧
    (s'.entry p).m_fPendingOpen = (s.entry p).m_fPendingOpen

theorem keepsMarks_setTruncated (s : FileStatus) (p : Str) (b : Bool) :
    KeepsMarks s (s.setTruncated p b) := by
  intro q
  rw [FileStatus.setTruncated, FileStatus.entry_modify]
  by_cases h : q = p
  · rw [if_pos h, h]
    exact ⟨rfl, rfl⟩
  · rw [if_neg h]
    exact ⟨rfl, rfl⟩

theorem keepsMarks_open (p : Str) (pFi : FileInfo) (w : World ε) :
    KeepsMarks w.fileStatus ((Callback.open' p pFi).step env g w).2.fileStatus := by
  have hprepare : KeepsMarks w.fileStatus ((prepareCopy g p).run env.handle w).2.fileStatus := by
    rw [prepareCopy, Program.run_bind, run_fileStatus, Program.run_ite]
    split
    · exact keepsMarks_setTruncated w.fileStatus p false
    · have hkeeps := run_keepsStatus env (uses_pullMissing (P := Sys.Op.KeepsStatus)
        (fun _ => trivial) (fun _ _ => trivial) g (p := p) trivial trivial trivial) w
      exact fun q => ⟨congrArg (fun s : FileStatus => (s.entry q).m_fForWrite) hkeeps,
        congrArg (fun s : FileStatus => (s.entry q).m_fPendingOpen) hkeeps⟩
  rw [open_step]
  dsimp only
  split
  · exact hprepare
  · exact hprepare

theorem keepsMarks_truncate (p : Str) (n : Int) (w : World ε) :
    KeepsMarks w.fileStatus ((Callback.truncate p n).step env g w).2.fileStatus := by
  by_cases h : Callback.Truncates env g p n w
  · rw [(truncate_ok env g h).2]
    exact keepsMarks_setTruncated w.fileStatus p true
  · rw [truncate_fails env g h]
    exact fun q => ⟨rfl, rfl⟩

/-- The mark of `p` after a call stays consistent, and where it is set the call has written
`p`, or it was set before and the call does not finish `p`. -/
def MarkStep (p : Str) (e e' : FileStatus.Entry) (c : Callback × Observed) : Prop :=
  e'.Consistent ∧
    (e'.m_fForWrite = true → c.1.WritesTo p ∨ e.m_fForWrite = true ∧ ¬ Finishes p c)

theorem markStep_of_keeps {p : Str} {s s' : FileStatus} {c : Callback × Observed}
    (hs : (s.entry p).Consistent) (hkeeps : KeepsMarks s s') (hc : ¬ Finishes p c) :
    MarkStep p (s.entry p) (s'.entry p) c := by
  obtain ⟨hwrite, hpend⟩ := hkeeps p
  rw [MarkStep, FileStatus.Entry.Consistent, hwrite, hpend]
  exact ⟨hs, fun h => Or.inr ⟨h, hc⟩⟩

/-- A call that clears the mark. -/
theorem markStep_of_cleared {p : Str} {e e' : FileStatus.Entry} {c : Callback × Observed}
    (h : e'.m_fForWrite = false) : MarkStep p e e' c :=
  ⟨fun hw => absurd hw (by rw [h]; exact Bool.false_ne_true),
    fun hw => absurd hw (by rw [h]; exact Bool.false_ne_true)⟩

theorem mark_step (env : Env ε) {c : Callback} (hc : c.UsesFiles) (w : World ε) (p : Str)
    (hw : (w.fileStatus.entry p).Consistent) :
    MarkStep p (w.fileStatus.entry p) ((c.step env g w).2.fileStatus.entry p)
      (c, (c.observe env g w).1) := by
  have hsame : ∀ {e' : FileStatus.Entry}, e' = w.fileStatus.entry p →
      ¬ Finishes p (c, (c.observe env g w).1) →
        MarkStep p (w.fileStatus.entry p) e' (c, (c.observe env g w).1) := by
    rintro e' rfl hnot
    exact ⟨hw, fun h => Or.inr ⟨h, hnot⟩⟩
  cases c with
  | open' q f => exact markStep_of_keeps hw (keepsMarks_open g q f w) id
  | truncate q n => exact markStep_of_keeps hw (keepsMarks_truncate g q n w) id
  | read q n off f =>
    rw [(read_step env g q n off f w).2, FileStatus.entry_setPendingOpen]
    split
    · exact markStep_of_cleared rfl
    · exact hsame rfl id
  | write q data off f =>
    rw [(write_step env g q data off f w).2, FileStatus.entry_setPendingOpen]
    split
    · rename_i hq
      exact ⟨fun _ => rfl, fun _ => Or.inl hq.symm⟩
    · exact hsame rfl id
  | flush q f =>
    by_cases h : FlushOk env f w.env
    · rw [(flush_step env g h).2.2 p]
      split
      · rename_i hq
        subst hq
        exact markStep_of_cleared hw.afterFlush
      · rename_i hq
        exact hsame rfl fun hfin => hq hfin.1.symm
    · exact hsame (by rw [(flush_blocked g h).2.1]) (flush_not_finishes g h)
  | fsync q f =>
    by_cases h : SyncOk env f w.env
    · rw [(fsync_step env g h).2 p]
      split
      · rename_i hq
        subst hq
        exact markStep_of_cleared hw.afterSync
      · rename_i hq
        exact hsame rfl fun hfin => hq hfin.1.symm
    · exact hsame (by rw [(fsync_blocked g h).2.1]) (fsync_not_finishes g h)
  | release q f =>
    rw [(release_step env g q f w).2 p]
    split
    · exact markStep_of_cleared rfl
    · rename_i hq
      exact hsame rfl fun hfin => hq hfin.symm
  | rename a b =>
    rw [(rename_step env g a b w).2 p]
    split
    · -- the entry of the new name becomes pending, with the mark for write it had
      rename_i h
      obtain ⟨-, rfl⟩ := h
      exact ⟨fun _ => rfl, fun h => Or.inr ⟨h, id⟩⟩
    · exact hsame rfl id
  | _ => exact hc.elim

/-- Over a run, every mark for write stands for a write since the path was finished last. -/
theorem written_of_marked (env : Env ε) {cs : List Callback} (hcs : ∀ c ∈ cs, c.UsesFiles)
    {w : World ε} (hw : w.fileStatus = FileStatus.empty) (p : Str) :
    ((final (Callback.step env g) cs w).fileStatus.entry p).Consistent ∧
      (((final (Callback.step env g) cs w).fileStatus.entry p).m_fForWrite = true →
        WrittenSince p (outcomes (Callback.observe env g) cs w)) := by
  induction cs using List.reverseRecOn with
  | nil =>
    show (w.fileStatus.entry p).Consistent ∧ ((w.fileStatus.entry p).m_fForWrite = true → _)
    rw [hw]
    exact ⟨(nomatch ·), (nomatch ·)⟩
  | append_singleton cs c ih =>
    obtain ⟨hcons, hwritten⟩ := ih fun d hd => hcs d (List.mem_append_left _ hd)
    obtain ⟨hcons', hmark⟩ := mark_step g env (hcs c (by simp)) _ p hcons
    rw [final_append, outcomes_append, final_observe]
    refine ⟨hcons', fun h => since_concat.mpr ?_⟩
    rcases hmark h with hc | ⟨hbefore, hnot⟩
    · exact Or.inl hc
    · exact Or.inr ⟨hwritten hbefore, hnot⟩

/-- A flush pushes only what was written since the path was finished last. -/
theorem flush_pushes_written (env : Env ε) {cs : List Callback} (hcs : ∀ c ∈ cs, c.UsesFiles)
    {w : World ε} (hw : w.fileStatus = FileStatus.empty) {pre post : CallTrace} {p : Str}
    {pFi : FileInfo} {o : Observed}
    (h : outcomes (Callback.observe env g) cs w = pre ++ (.flush p pFi, o) :: post)
    (hpush : o.pushed ≠ []) : WrittenSince p pre := by
  obtain ⟨cs₁, cs₂, rfl, rfl, ho, -⟩ := outcomes_eq_append.mp h
  rw [final_observe] at ho
  dsimp only at ho
  have hmarked := (written_of_marked g env
    (fun c hc => hcs c (List.mem_append_left _ hc)) hw p).2
  generalize final (Callback.step env g) cs₁ w = s at ho hmarked
  refine hmarked ?_
  subst ho
  by_cases hok : FlushOk env pFi s.env
  · have hasked : (s.fileStatus.entry p).flushed (g.localPath p) p ≠ [] := by
      rw [← (flush_step env g hok).1, ← pushed_fst]
      exact fun hnil => hpush (List.map_eq_nil_iff.mp hnil)
    unfold FileStatus.Entry.flushed at hasked
    split at hasked
    · rename_i hmarks
      exact hmarks.2
    · exact absurd rfl hasked
  · exact absurd (flush_blocked g hok).1 hpush

end

def writeFlush : List Callback :=
  [.write ['/', 'a'] ['x'] 0 ⟨5, 2⟩, .flush ['/', 'a'] ⟨5, 2⟩]

theorem flush_pushes_written_writeFlush :
    WrittenSince ['/', 'a'] (outcomes (Callback.observe Env.obliging exampleGlobals)
      [.write ['/', 'a'] ['x'] 0 ⟨5, 2⟩] World.start) := by
  have hrun : outcomes (Callback.observe Env.obliging exampleGlobals) writeFlush World.start =
      outcomes (Callback.observe Env.obliging exampleGlobals)
          [.write ['/', 'a'] ['x'] 0 ⟨5, 2⟩] World.start ++
        (.flush ['/', 'a'] ⟨5, 2⟩, ((Callback.flush ['/', 'a'] ⟨5, 2⟩).observe Env.obliging
          exampleGlobals (final (Callback.observe Env.obliging exampleGlobals)
            [.write ['/', 'a'] ['x'] 0 ⟨5, 2⟩] World.start)).1) :: [] := rfl
  refine flush_pushes_written exampleGlobals Env.obliging (fun c hc => ?_) rfl hrun ?_
  · simp only [writeFlush, List.mem_cons, List.not_mem_nil, or_false] at hc
    rcases hc with rfl | rfl <;> trivial
  · decide +kernel

end AdbncFs
