import AdbncFs.Writes.Answers

/-!
# Closing what was opened

`adbnc_release` leaves the closing of a handle to the entry of the path in `FileStatus`, and
to nobody where there is none. `exists_entry_iff` says which calls make the entry, and
`release_closes_iff` what a release of an opened handle does: without an entry the handle
stays open, and with one a close that succeeds is reported as `-EBADF`.
-/

namespace AdbncFs

open Text Interaction

namespace Callback

/-- The calls that use the content of files. -/
def UsesFiles : Callback → Prop
  | open' .. | read .. | write .. | flush .. | fsync .. | truncate .. | rename .. | release .. =>
    True
  | _ => False

/-- The device has `p`, and its local copy can be truncated. -/
def Truncates {ε : Type} (env : Env ε) (g : Globals) (p : Str) (n : Int) (w : World ε) : Prop :=
  ((doStat p false).run env.handle w).1.1 = 0 ∧
    ∃ v, (env.syscall (.truncate (g.localPath p) n)
      ((doStat p false).run env.handle w).2.env).1 = .ok v

/-- The call makes an entry for `p` if there is none: a read or a write of `p`, a truncation
of `p` that succeeds, or a rename of a pending file to `p`. -/
def MakesEntry {ε : Type} (env : Env ε) (g : Globals) (p : Str) (w : World ε) : Callback → Prop
  | read q _ _ _ | write q _ _ _ => q = p
  | truncate q n => q = p ∧ Truncates env g q n w
  | rename a b => b = p ∧ w.fileStatus.pendingOpen a = true
  | _ => False

end Callback

open Callback

/-- A call of `close`, with its answer. -/
def closeOf : Event Linked → Option (Int × Except Int Int)
  | ⟨.sys (.syscall (.close fd)), answer⟩ => some (fd, answer)
  | _ => none

def Observed.closes (o : Observed) : List (Int × Except Int Int) := o.events.filterMap closeOf

/-- `fd` is closed exactly once, and the result is 0 if it could be closed. -/
def Observed.Closes (fd : Int) (o : Observed) : Prop :=
  (o.closes.map Prod.fst).count fd = 1 ∧ ((∃ v, (fd, .ok v) ∈ o.closes) → o.result = 0)

section

variable {ε : Type} (env : Env ε) (g : Globals)

/-! ## Which paths have an entry -/

theorem isSome_modify (s : FileStatus) (p q : Str) (f : FileStatus.Entry → FileStatus.Entry) :
    (s.modify p f q).isSome = (decide (q = p) || (s q).isSome) := by
  unfold FileStatus.modify
  by_cases h : q = p
  · subst h
    simp
  · simp [h]

/-- Changing an entry that is there makes no entry. -/
theorem isSome_modify_of_isSome {s : FileStatus} {p : Str} (h : (s p).isSome = true) (q : Str)
    (f : FileStatus.Entry → FileStatus.Entry) : (s.modify p f q).isSome = (s q).isSome := by
  rw [isSome_modify]
  by_cases hq : q = p
  · rw [hq, h, Bool.or_true]
  · simp [hq]

theorem isSome_entryFlush (e : FileStatus.Entry) {p : Str} (q l : Str) {w : World ε}
    (ps : Pushes) (hp : (w.fileStatus p).isSome = true) :
    (((e.flush p l).run (env.system g) (w, ps)).2.1.fileStatus q).isSome =
      (w.fileStatus q).isSome := by
  have hq : (decide (q = p) || (w.fileStatus q).isSome) = (w.fileStatus q).isSome := by
    by_cases h : q = p
    · rw [h, hp, Bool.or_true]
    · simp [h]
  unfold FileStatus.Entry.flush
  cases e.m_fPendingOpen with
  | false => rfl
  | true =>
    by_cases hr : e.m_strRenamedFromLocal = [] <;> cases e.m_fForWrite <;>
      simp [hr, isSome_modify, hq, -Bool.decide_or]

theorem isSome_flushPending (p q : Str) (w : World ε) (ps : Pushes) :
    (((adbnc_flush.flushPending g p).run (env.system g) (w, ps)).2.1.fileStatus q).isSome =
      (w.fileStatus q).isSome := by
  simp only [adbnc_flush.flushPending, Program.run_bind, run_liftM, run_fileStatus,
    Program.run_ite, run_invalidate, FileStatus.flush]
  cases h : w.fileStatus p with
  | none => split <;> rfl
  | some e =>
    have hp : (w.fileStatus p).isSome = true := by
      rw [h]
      rfl
    split
    · exact isSome_entryFlush env g e q _ ps hp
    · exact isSome_entryFlush env g e q _ ps hp

theorem isSome_of_pendingOpen {s : FileStatus} {p : Str} (h : s.pendingOpen p = true) :
    (s p).isSome = true := by
  obtain ⟨e, he, -⟩ := (Option.any_eq_true _ _).mp h
  rw [he]
  rfl

theorem isSome_of_truncated {s : FileStatus} {p : Str} (h : s.truncated p = true) :
    (s p).isSome = true := by
  obtain ⟨e, he, -⟩ := (Option.any_eq_true _ _).mp h
  rw [he]
  rfl

theorem fileStatus_doStat (p : Str) (fTokens : Bool) (w : World ε) :
    ((doStat p fTokens).run env.handle w).2.fileStatus = w.fileStatus :=
  run_keepsStatus env (uses_doStat (P := Sys.Op.KeepsStatus) (fun _ => trivial)
    (fun _ _ => trivial) trivial fTokens) w

theorem isSome_prepareCopy (p q : Str) (w : World ε) :
    (((prepareCopy g p).run env.handle w).2.fileStatus q).isSome = (w.fileStatus q).isSome := by
  rw [prepareCopy, Program.run_bind, run_fileStatus, Program.run_ite]
  split
  · rename_i ht
    exact isSome_modify_of_isSome (isSome_of_truncated ht) q _
  · exact congrArg (fun s : FileStatus => (s q).isSome) (run_keepsStatus env
      (uses_pullMissing (fun _ => trivial) (fun _ _ => trivial) g trivial trivial trivial) w)

theorem isSome_open (p : Str) (pFi : FileInfo) (w : World ε) (q : Str) :
    (((Callback.open' p pFi).step env g w).2.fileStatus q).isSome = (w.fileStatus q).isSome := by
  rw [← isSome_prepareCopy env g p q w]
  rw [open_step]
  dsimp only
  split
  · rfl
  · rfl

theorem isSome_flush (p : Str) (pFi : FileInfo) (w : World ε) (q : Str) :
    (((Callback.flush p pFi).step env g w).2.fileStatus q).isSome = (w.fileStatus q).isSome := by
  by_cases h : FlushOk env pFi w.env
  · rw [Callback.step, Callback.program, run_flush env g h]
    exact isSome_flushPending env g p q _ _
  · rw [(flush_blocked g h).2.1]

theorem isSome_fsync (p : Str) (pFi : FileInfo) (w : World ε) (q : Str) :
    (((Callback.fsync p pFi).step env g w).2.fileStatus q).isSome = (w.fileStatus q).isSome := by
  by_cases h : SyncOk env pFi w.env
  · rw [Callback.step, Callback.program, run_fsync env g h]
    dsimp only
    split
    · rename_i hp
      rw [← FileStatus.pendingOpen_eq] at hp
      exact isSome_modify_of_isSome (isSome_of_pendingOpen hp) q _
    · rfl
  · rw [(fsync_blocked g h).2.1]

theorem isSome_release (p : Str) (pFi : FileInfo) (w : World ε) (q : Str) :
    (((Callback.release p pFi).step env g w).2.fileStatus q).isSome =
      (w.fileStatus q).isSome := by
  rw [Callback.step, Callback.program, run_release]
  cases h : w.fileStatus p with
  | none => rfl
  | some e =>
    have hp : (w.fileStatus p).isSome = true := by
      rw [h]
      rfl
    exact isSome_modify_of_isSome hp q _

theorem truncate_ok {p : Str} {n : Int} {w : World ε} (h : Truncates env g p n w) :
    ((Callback.truncate p n).step env g w).1.result = 0 ∧
      ((Callback.truncate p n).step env g w).2.fileStatus =
        w.fileStatus.setTruncated p true := by
  obtain ⟨hstat, v, hv⟩ := h
  have hkeeps := fileStatus_doStat env p false w
  simp only [Callback.step, Callback.program, adbnc_truncate, Program.run_bind, run_liftM,
    Program.run_ite, run_syscall]
  rw [if_pos hstat, hv]
  simp only [Program.run_bind, run_liftM, run_setFileStatus, run_invalidate, Program.run_pure]
  exact ⟨trivial, congrArg _ hkeeps⟩

theorem truncate_fails {p : Str} {n : Int} {w : World ε} (h : ¬ Truncates env g p n w) :
    ((Callback.truncate p n).step env g w).2.fileStatus = w.fileStatus := by
  have hkeeps := fileStatus_doStat env p false w
  unfold Truncates at h
  simp only [Callback.step, Callback.program, adbnc_truncate, Program.run_bind, run_liftM,
    Program.run_ite, run_syscall]
  split
  · rename_i hstat
    split
    · rename_i v hv
      exact absurd ⟨hstat, v, hv⟩ h
    · exact hkeeps
  · exact hkeeps

theorem isSome_step {c : Callback} (hc : c.UsesFiles) (w : World ε) (p : Str) :
    ((c.step env g w).2.fileStatus p).isSome = true ↔
      (w.fileStatus p).isSome = true ∨ c.MakesEntry env g p w := by
  have hmodify : ∀ (q : Str) (f : FileStatus.Entry → FileStatus.Entry),
      (w.fileStatus.modify q f p).isSome = true ↔ (w.fileStatus p).isSome = true ∨ q = p := by
    intro q f
    rw [isSome_modify, Bool.or_eq_true, decide_eq_true_eq, or_comm, @eq_comm _ p q]
  have hnone : ∀ {P : Prop}, ¬ P → ((w.fileStatus p).isSome = true ↔
      (w.fileStatus p).isSome = true ∨ P) := fun hP => (or_iff_left hP).symm
  cases c with
  | open' q f => exact isSome_open env g q f w p ▸ hnone id
  | read q n off f =>
    rw [(read_step env g q n off f w).2]
    exact hmodify q _
  | write q data off f =>
    rw [(write_step env g q data off f w).2]
    exact hmodify q _
  | flush q f => exact isSome_flush env g q f w p ▸ hnone id
  | fsync q f => exact isSome_fsync env g q f w p ▸ hnone id
  | release q f => exact isSome_release env g q f w p ▸ hnone id
  | truncate q n =>
    by_cases h : Truncates env g q n w
    · rw [(truncate_ok env g h).2]
      exact (hmodify q _).trans (or_congr_right (and_iff_left h).symm)
    · rw [truncate_fails env g h]
      exact hnone fun hc => h hc.2
  | rename a b =>
    simp only [Callback.step, Callback.program, adbnc_rename, Program.run_bind, run_liftM,
      run_adbncShell, run_invalidate, run_fileStatus, Program.run_ite, run_setFileStatus,
      Program.run_pure]
    split
    · rename_i h
      exact (hmodify b _).trans (or_congr_right (and_iff_left h).symm)
    · rename_i h
      exact hnone fun hc => h hc.2
  | _ => exact hc.elim

/-- After a run a path has an entry if it had one before, or if some call made it. -/
theorem exists_entry_iff {cs : List Callback} (hcs : ∀ c ∈ cs, c.UsesFiles) (w : World ε)
    (p : Str) :
    ((final (Callback.step env g) cs w).fileStatus p).isSome = true ↔
      (w.fileStatus p).isSome = true ∨ ∃ pre c post, cs = pre ++ c :: post ∧
        c.MakesEntry env g p (final (Callback.step env g) pre w) := by
  induction cs using List.reverseRecOn with
  | nil =>
    refine (or_iff_left ?_).symm
    rintro ⟨pre, c, post, h, -⟩
    exact List.append_ne_nil_of_right_ne_nil pre (List.cons_ne_nil c post) h.symm
  | append_singleton cs c ih =>
    have ih := ih fun d hd => hcs d (List.mem_append_left _ hd)
    have hstep := isSome_step env g (hcs c (by simp)) (final (Callback.step env g) cs w) p
    have hfinal : final (Callback.step env g) (cs ++ [c]) w =
        (c.step env g (final (Callback.step env g) cs w)).2 := by
      rw [final_append]
      rfl
    rw [hfinal, hstep, ih, or_assoc]
    refine or_congr_right ⟨?_, ?_⟩
    · rintro (⟨pre, d, post, rfl, hd⟩ | hc)
      · exact ⟨pre, d, post ++ [c], by simp, hd⟩
      · exact ⟨cs, c, [], rfl, hc⟩
    · rintro ⟨pre, d, post, h, hd⟩
      rcases concat_eq_append_cons.mp h with ⟨rfl, rfl, -⟩ | ⟨post, rfl, rfl⟩
      · exact Or.inr hd
      · exact Or.inl ⟨pre, d, post, rfl, hd⟩

/-! ## Releasing -/

/-- A handle is never -1, and a failing `open` sets `errno`. -/
structure OpenReturns : Prop where
  handle : ∀ path flags e fh, (env.syscall (.open' path flags) e).1 = .ok fh → fh ≠ -1
  errno : ∀ path flags e errno, (env.syscall (.open' path flags) e).1 = .error errno → errno ≠ 0

/-- Some `adbnc_open` of `p` in the run returned 0 and stored the handle `fh`. -/
def Opened (p : Str) (fh : Int) (cs : List Callback) (w : World ε) : Prop :=
  ∃ pre pFi post, cs = pre ++ .open' p pFi :: post ∧
    ((adbnc_open g p pFi).run env.handle (final (Callback.step env g) pre w)).1 = (0, some fh)

variable {env g}

theorem opened_ne (henv : OpenReturns env) {p : Str} {fh : Int} {cs : List Callback}
    {w : World ε} (h : Opened env g p fh cs w) : fh ≠ -1 := by
  obtain ⟨pre, pFi, post, -, hrun⟩ := h
  generalize final (Callback.step env g) pre w = s at hrun
  rw [adbnc_open, Program.run_bind, Program.run_ite] at hrun
  generalize (prepareCopy g p).run env.handle s = r at hrun
  split at hrun
  · simp only [Program.run_bind, run_syscall] at hrun
    split at hrun
    · rename_i v hv
      cases hrun
      exact henv.handle _ _ _ _ hv
    · rename_i errno he
      have hne := henv.errno _ _ _ _ he
      have hzero : -errno = 0 := congrArg Prod.fst hrun
      omega
  · have hnone := congrArg Prod.snd hrun
    cases hnone

/-- Without an entry nothing is closed. -/
theorem release_none {p : Str} {pFi : FileInfo} {w : World ε} (h : w.fileStatus p = none) :
    ((Callback.release p pFi).observe env g w).1.closes = [] := by
  simp only [Callback.observe, Callback.program, adbnc_release, FileStatus.release,
    Observed.closes, Program.trace_bind, trace_liftM, run_liftM, run_fileStatus, h]
  rfl

/-- With an entry the handle is closed, and the result is never 0 after a close that
succeeds. -/
theorem release_some (env : Env ε) (g : Globals) {p : Str} {pFi : FileInfo} {w : World ε}
    (h : (w.fileStatus p).isSome = true) (hfh : pFi.fh ≠ -1) :
    let answer := (env.syscall (.close pFi.fh) w.env).1
    ((Callback.release p pFi).observe env g w).1.closes = [(pFi.fh, answer)] ∧
      ((∃ v, answer = .ok v) →
        ((Callback.release p pFi).observe env g w).1.result = - EBADF) := by
  obtain ⟨e, he⟩ := Option.isSome_iff_exists.mp h
  simp only [Callback.observe, Callback.step, Callback.program, adbnc_release,
    FileStatus.release, FileStatus.Entry.release, Observed.closes, Program.trace_bind,
    trace_liftM, Program.run_bind, run_liftM, run_fileStatus, he, if_pos hfh, trace_syscall,
    run_syscall]
  cases (env.syscall (.close pFi.fh) w.env).1 with
  | ok v => exact ⟨rfl, fun _ => rfl⟩
  | error errno =>
    refine ⟨rfl, fun hok => ?_⟩
    obtain ⟨v, hv⟩ := hok
    cases hv

theorem release_closes_iff (henv : OpenReturns env) {cs : List Callback}
    (hcs : ∀ c ∈ cs, c.UsesFiles) {w : World ε} (hw : w.fileStatus = FileStatus.empty) {p : Str}
    {pFi : FileInfo} (hopen : Opened env g p pFi.fh cs w) :
    ((Callback.release p pFi).observe env g
        (final (Callback.step env g) cs w)).1.Closes pFi.fh ↔
      (∃ pre c post, cs = pre ++ c :: post ∧
          c.MakesEntry env g p (final (Callback.step env g) pre w)) ∧
        ∃ errno, (env.syscall (.close pFi.fh) (final (Callback.step env g) cs w).env).1 =
          .error errno := by
  have hentry := exists_entry_iff env g hcs w p
  rw [hw, or_iff_right (by exact Bool.false_ne_true)] at hentry
  rw [← hentry]
  generalize final (Callback.step env g) cs w = s
  unfold Observed.Closes
  cases h : s.fileStatus p with
  | none =>
    rw [release_none h]
    exact iff_of_false (fun hc => absurd hc.1 (by simp)) fun hc => Bool.false_ne_true hc.1
  | some e =>
    obtain ⟨hcloses, hres⟩ := release_some env g (p := p)
      (by rw [h]; rfl) (opened_ne henv hopen)
    rw [hcloses]
    cases hanswer : (env.syscall (.close pFi.fh) s.env).1 with
    | ok v =>
      refine iff_of_false (fun hc => ?_) fun hc => ?_
      · have hzero := hc.2 ⟨v, List.mem_singleton_self _⟩
        rw [hres ⟨v, hanswer⟩] at hzero
        exact absurd hzero (by decide)
      · obtain ⟨-, errno, herr⟩ := hc
        cases herr
    | error errno =>
      refine iff_of_true ⟨?_, fun hc => ?_⟩ ⟨rfl, errno, rfl⟩
      · exact List.count_singleton_self
      · obtain ⟨v, hv⟩ := hc
        cases List.mem_singleton.mp hv

end

/-! ## Two handles -/

theorem obliging_open : OpenReturns Env.obliging where
  handle path flags e fh h := by
    have hfh : (5 : Int) = fh := Except.ok.inj h
    omega
  errno path flags e errno h := nomatch h

theorem opened_obliging (cs : List Callback) :
    Opened Env.obliging exampleGlobals ['/', 'a'] 5 (.open' ['/', 'a'] ⟨0, 2⟩ :: cs) World.start :=
  ⟨[], ⟨0, 2⟩, cs, rfl, by decide +kernel⟩

def openRead : List Callback := [.open' ['/', 'a'] ⟨0, 2⟩, .read ['/', 'a'] 1 0 ⟨5, 2⟩]

theorem release_closes_openRead :
    ((Callback.release ['/', 'a'] ⟨5, 2⟩).observe Env.obliging exampleGlobals
        (final (Callback.step Env.obliging exampleGlobals) openRead World.start)).1.Closes 5 ↔
      (∃ pre c post, openRead = pre ++ c :: post ∧
          c.MakesEntry Env.obliging exampleGlobals ['/', 'a']
            (final (Callback.step Env.obliging exampleGlobals) pre World.start)) ∧
        ∃ errno, (Env.obliging.syscall (.close 5)
          (final (Callback.step Env.obliging exampleGlobals) openRead World.start).env).1 =
            .error errno := by
  have hopen : Opened Env.obliging exampleGlobals ['/', 'a'] (FileInfo.mk 5 2).fh openRead
      World.start := opened_obliging _
  refine release_closes_iff obliging_open (fun c hc => ?_) rfl hopen
  simp only [openRead, List.mem_cons, List.not_mem_nil, or_false] at hc
  rcases hc with rfl | rfl <;> trivial

/-- A file is opened and released: nothing is closed. When it was read in between, the handle
is closed and the result is `-EBADF`. -/
theorem release_leaks :
    Opened Env.obliging exampleGlobals ['/', 'a'] 5 [.open' ['/', 'a'] ⟨0, 2⟩] World.start ∧
      ¬ ((Callback.release ['/', 'a'] ⟨5, 2⟩).observe Env.obliging exampleGlobals
        (final (Callback.step Env.obliging exampleGlobals) [.open' ['/', 'a'] ⟨0, 2⟩]
          World.start)).1.Closes 5 ∧
      ((Callback.release ['/', 'a'] ⟨5, 2⟩).step Env.obliging exampleGlobals
        (final (Callback.step Env.obliging exampleGlobals) openRead World.start)).1.result =
          - EBADF := by
  refine ⟨opened_obliging [], fun h => ?_, by decide +kernel⟩
  exact absurd h.1 (by decide +kernel)

end AdbncFs
