import AdbncFs.System.Events
import AdbncFs.Writes.Effects

/-!
# The answers of pushes

What a flush and an fsync return when the push they ask for is answered: its answer, and 0
when they ask for none. Neither looks at the answer before it clears the marks.
-/

namespace AdbncFs

open Text Interaction

variable {ε : Type} {env : Env ε} (g : Globals)

/-- The result is the answer of the push, and 0 where there is none. -/
def AnswersPush (asked : Pushes) (pushed : List Push) (result : Int) : Prop :=
  ∃ answer : Int, pushed = asked.map (·, answer) ∧ result = if asked = [] then 0 else answer

theorem answersPush_nil : AnswersPush [] [] 0 := ⟨0, rfl, rfl⟩

theorem answersPush_single (push : Str × Str) (answer : Int) :
    AnswersPush [push] [(push, answer)] answer := ⟨answer, rfl, rfl⟩

theorem entryFlush_answers (env : Env ε) (e : FileStatus.Entry) (p l : Str) (w : World ε)
    (ps : Pushes) :
    AnswersPush (e.flushed l p) (pushedBy env g (e.flush p l) (w, ps))
      ((e.flush p l).run (env.system g) (w, ps)).1 := by
  unfold FileStatus.Entry.flush FileStatus.Entry.flushed
  cases e.m_fPendingOpen with
  | false => exact answersPush_nil
  | true =>
    by_cases hr : e.m_strRenamedFromLocal = [] <;> cases e.m_fForWrite <;>
      simp [hr, answersPush_nil, answersPush_single]

theorem statusFlush_answers (env : Env ε) (p l : Str) (w : World ε) (ps : Pushes) :
    AnswersPush ((w.fileStatus.entry p).flushed l p)
      (pushedBy env g (FileStatus.flush p l) (w, ps))
      ((FileStatus.flush p l).run (env.system g) (w, ps)).1 := by
  simp only [FileStatus.flush, Program.run_bind, run_liftM, run_fileStatus, pushedBy_bind,
    pushedBy_liftM, List.nil_append]
  cases h : w.fileStatus p with
  | none =>
    rw [entry_of_none h]
    exact answersPush_nil
  | some e =>
    rw [entry_of_some h]
    exact entryFlush_answers g env e p l w ps

theorem flushPending_answers (env : Env ε) (p : Str) (w : World ε) (ps : Pushes) :
    AnswersPush ((w.fileStatus.entry p).flushed (g.localPath p) p)
      (pushedBy env g (adbnc_flush.flushPending g p) (w, ps))
      ((adbnc_flush.flushPending g p).run (env.system g) (w, ps)).1 := by
  simp only [adbnc_flush.flushPending, Program.run_bind, run_liftM, run_fileStatus,
    Program.run_ite, run_invalidate, pushedBy_bind, pushedBy_liftM, List.nil_append,
    pushedBy_ite]
  split
  · exact statusFlush_answers g env p _ { w with fileCache := w.fileCache.invalidate p } ps
  · exact statusFlush_answers g env p _ w ps

theorem pushedBy_flush {p : Str} {pFi : FileInfo} {w : World ε} (h : FlushOk env pFi w.env)
    (ps : Pushes) :
    pushedBy env g (adbnc_flush g p pFi) (w, ps) =
      pushedBy env g (adbnc_flush.flushPending g p)
        ({ w with env := (env.syscall (.fsync pFi.fh) w.env).2 }, ps) := by
  unfold FlushOk at h
  rw [adbnc_flush, pushedBy_bind, pushedBy_liftM, List.nil_append, run_liftM, run_syscall]
  dsimp only
  split
  · rename_i errno he
    rw [he] at h
    rw [if_pos h]
  · rfl

theorem flush_answers {p : Str} {pFi : FileInfo} {w : World ε} (h : FlushOk env pFi w.env) :
    AnswersPush ((w.fileStatus.entry p).flushed (g.localPath p) p)
      ((Callback.flush p pFi).observe env g w).1.pushed
      ((Callback.flush p pFi).step env g w).1.result := by
  rw [observe_pushed, Callback.step, Callback.program, pushedBy_flush g h, run_flush env g h]
  exact flushPending_answers g env p { w with env := (env.syscall (.fsync pFi.fh) w.env).2 } []

/-- A local `fsync` that fails, other than on a closed handle, ends a flush. -/
theorem flush_blocked {p : Str} {pFi : FileInfo} {w : World ε} (h : ¬ FlushOk env pFi w.env) :
    ((Callback.flush p pFi).observe env g w).1.pushed = [] ∧
      ((Callback.flush p pFi).step env g w).2.fileStatus = w.fileStatus ∧
      ∃ errno, (env.syscall (.fsync pFi.fh) w.env).1 = .error errno ∧
        ((Callback.flush p pFi).step env g w).1.result = -errno := by
  unfold FlushOk at h
  rw [observe_pushed]
  simp only [Callback.step, Callback.program, adbnc_flush, Program.run_bind, run_liftM,
    run_syscall, pushedBy_bind, pushedBy_liftM, List.nil_append]
  split
  · rename_i errno he
    rw [he] at h
    rw [if_neg h]
    exact ⟨rfl, rfl, errno, he, rfl⟩
  · rename_i v hv
    rw [hv] at h
    exact absurd trivial h

/-- The local `fsync` lets `adbnc_fsync` go on. -/
def SyncOk (env : Env ε) (pFi : FileInfo) (e : ε) : Prop :=
  ∃ v, (env.syscall (.fsync pFi.fh) e).1 = .ok v

theorem SyncOk.flushOk {pFi : FileInfo} {e : ε} (h : SyncOk env pFi e) : FlushOk env pFi e := by
  obtain ⟨v, hv⟩ := h
  rw [FlushOk, hv]
  trivial

theorem pushedBy_fsync {p : Str} {pFi : FileInfo} {w : World ε} (h : SyncOk env pFi w.env)
    (ps : Pushes) :
    pushedBy env g (adbnc_fsync g p pFi) (w, ps) =
      if (w.fileStatus.entry p).m_fPendingOpen = true then
        [((g.localPath p, p), ((adbncPushPullCmd g true (g.localPath p) p).run env.handle
          { w with env := (env.syscall (.fsync pFi.fh) w.env).2 }).1)]
      else [] := by
  obtain ⟨v, hv⟩ := h
  simp only [adbnc_fsync, run_liftM, run_syscall, hv, run_fileStatus, FileStatus.pendingOpen_eq,
    pushedBy_bind, pushedBy_liftM, List.nil_append, pushedBy_ite, pushedBy_adbncPush,
    pushedBy_pure, List.append_nil]

theorem fsync_answers {p : Str} {pFi : FileInfo} {w : World ε} (h : SyncOk env pFi w.env) :
    AnswersPush ((w.fileStatus.entry p).synced (g.localPath p) p)
      ((Callback.fsync p pFi).observe env g w).1.pushed
      ((Callback.fsync p pFi).step env g w).1.result := by
  rw [observe_pushed, Callback.step, Callback.program, pushedBy_fsync g h, run_fsync env g h,
    FileStatus.Entry.synced]
  dsimp only
  split
  · exact answersPush_single _ _
  · exact answersPush_nil

theorem fsync_blocked {p : Str} {pFi : FileInfo} {w : World ε} (h : ¬ SyncOk env pFi w.env) :
    ((Callback.fsync p pFi).observe env g w).1.pushed = [] ∧
      ((Callback.fsync p pFi).step env g w).2.fileStatus = w.fileStatus ∧
      ∃ errno, (env.syscall (.fsync pFi.fh) w.env).1 = .error errno ∧
        ((Callback.fsync p pFi).step env g w).1.result = -errno := by
  rw [observe_pushed]
  simp only [Callback.step, Callback.program, adbnc_fsync, Program.run_bind, run_liftM,
    run_syscall, pushedBy_bind, pushedBy_liftM, List.nil_append]
  split
  · rename_i errno he
    exact ⟨rfl, rfl, errno, he, rfl⟩
  · rename_i v hv
    exact absurd ⟨v, hv⟩ h

/-! ## Calls that never push -/

/-- The calls that can ask for a push. -/
def Callback.MayPush : Callback → Prop
  | flush .. | fsync .. | mknod .. => True
  | _ => False

theorem pushed_of_pushes {c : Callback} {w : World ε} (h : (c.step env g w).1.pushes = []) :
    (c.observe env g w).1.pushed = [] :=
  List.map_eq_nil_iff.mp ((pushed_fst env g c w).trans h)

theorem pushed_nil (env : Env ε) {c : Callback} (hc : ¬ c.MayPush) (w : World ε) :
    (c.observe env g w).1.pushed = [] := by
  cases c with
  | read p n off f => exact pushed_of_pushes g (read_step env g p n off f w).1
  | write p data off f => exact pushed_of_pushes g (write_step env g p data off f w).1
  | release p f => exact pushed_of_pushes g (release_step env g p f w).1
  | rename a b => exact pushed_of_pushes g (rename_step env g a b w).1
  | truncate p n =>
    rw [observe_pushed]
    simp only [Callback.program, adbnc_truncate, pushedBy_bind, pushedBy_liftM, List.nil_append,
      pushedBy_ite, run_liftM, run_syscall]
    split
    · split
      · simp
      · rfl
    · rfl
  | flush p f => exact absurd trivial hc
  | fsync p f => exact absurd trivial hc
  | mknod p mode rdev => exact absurd trivial hc
  | _ =>
    rw [observe_pushed]
    simp [Callback.program, adbnc_utimens, adbnc_mkdir, adbnc_rmdir, adbnc_unlink]

/-- `adbnc_mknod` pushes its own file, after the local one was made. -/
theorem mknod_pushed (env : Env ε) (p : Str) (mode rdev : Nat) (w : World ε) :
    ((Callback.mknod p mode rdev).observe env g w).1.pushed = [] ∨
      (∃ r, (env.syscall (.mknod (g.localPath p) mode rdev) w.env).1 = .ok r) ∧
        ∃ answer, ((Callback.mknod p mode rdev).observe env g w).1.pushed =
          [((g.localPath p, p), answer)] := by
  rw [observe_pushed]
  simp only [Callback.program, adbnc_mknod, pushedBy_bind, pushedBy_liftM, List.nil_append,
    run_liftM, run_syscall]
  split
  · exact Or.inl rfl
  · rename_i r hr
    refine Or.inr ⟨⟨r, hr⟩, ?_⟩
    rw [pushedBy_bind, pushedBy_adbncPush, run_adbncPush]
    refine ⟨_, congrArg (_ :: ·) ?_⟩
    dsimp only
    rw [pushedBy_ite]
    split <;> rfl

end AdbncFs
