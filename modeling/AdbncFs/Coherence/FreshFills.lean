import AdbncFs.Coherence.Mutators

/-!
# Every callback fills fresh

Whatever callback puts a stat output into the cache, it is what the device has just answered
to the stat command of the same thread (`callback_fresh`).
-/

namespace AdbncFs

open Text Interaction

section

variable {α β : Type} {q : Program Sys α} {f : α → Program Sys β}

theorem fresh_of_changing (h : q.EachPath Changing) : q.EachPath FillsFresh :=
  fun es a hpath => (h es a hpath).1

theorem fresh_of_uses (h : q.Uses (S := Sys) Sys.Op.NoFill) : q.EachPath FillsFresh :=
  fun _ _ hpath => fillsFresh_of_noFill (hpath.of_uses h)

theorem fresh_pure (a : α) : (pure a : Program Sys α).EachPath FillsFresh :=
  fresh_of_uses (Program.uses_pure a)

theorem fresh_send {op : Sys.Op} (h : op.NoFill) :
    (Program.send (S := Sys) op).EachPath FillsFresh := fresh_of_uses (Program.uses_send h)

theorem fresh_bind (hq : q.EachPath FillsFresh) (hf : ∀ a, (f a).EachPath FillsFresh) :
    (q >>= f).EachPath FillsFresh := Program.eachPath_bind FillsFresh.append hq hf

end

theorem doStat_fresh (p : Str) (fTokens : Bool) : (doStat p fTokens).EachPath FillsFresh :=
  fresh_bind (statOutput_fresh p) fun _ => fresh_pure _

theorem readlink_fresh (p : Str) (iSize : Nat) : (adbnc_readlink p iSize).EachPath FillsFresh := by
  have hout : (readLinkOutput p).EachPath FillsFresh := by
    refine fresh_bind (fresh_send trivial) fun r => ?_
    cases r with
    | some o => exact fresh_pure _
    | none =>
      exact fresh_bind (fresh_send trivial) fun o =>
        fresh_bind (fresh_send trivial) fun _ => fresh_pure _
  refine fresh_bind hout fun o => ?_
  cases o with
  | nil => exact fresh_pure _
  | cons front rest =>
    dsimp only
    split <;> exact fresh_pure _

theorem open_fresh (g : Globals) (p : Str) (pFi : FileInfo) :
    (adbnc_open g p pFi).EachPath FillsFresh := by
  have hexists : (fileExists p).EachPath FillsFresh := by
    refine fresh_bind (fresh_send trivial) fun r => ?_
    cases r <;> exact fresh_pure _
  have hcopy : (prepareCopy g p).EachPath FillsFresh := by
    refine fresh_bind (fresh_send trivial) fun s => ?_
    split
    · exact fresh_bind (fresh_send trivial) fun _ => fresh_pure _
    · refine fresh_bind (doStat_fresh p false) fun r => ?_
      dsimp only
      split
      · refine fresh_bind hexists fun b => ?_
        split
        · exact fresh_pure _
        · exact fresh_of_changing (transfer_changing g false _ _)
      · exact fresh_pure _
  refine fresh_bind hcopy fun iRes => ?_
  split
  · refine fresh_bind (fresh_send trivial) fun r => ?_
    cases r <;> exact fresh_pure _
  · exact fresh_pure _

/-- Every callback puts into the cache what the device has just answered it. -/
theorem callback_fresh (g : Globals) (c : Callback) :
    (link g (c.program g)).EachPath FillsFresh := by
  cases c with
  | getattr p =>
    simp only [Callback.program, link_bind, link_liftM, link_pure]
    exact fresh_bind (fresh_bind (statOutput_fresh p) fun _ => fresh_pure _) fun _ => fresh_pure _
  | access p iMask =>
    simp only [Callback.program, link_liftM]
    exact fresh_bind (doStat_fresh p true) fun _ => fresh_pure _
  | readlink p iSize =>
    simp only [Callback.program, link_bind, link_liftM, link_pure]
    exact fresh_bind (readlink_fresh p iSize) fun _ => fresh_pure _
  | open' p pFi =>
    simp only [Callback.program, link_bind, link_liftM, link_pure]
    exact fresh_bind (open_fresh g p pFi) fun _ => fresh_pure _
  | read p iSize iOffset pFi =>
    simp only [Callback.program, adbnc_read, link_bind, link_liftM, link_ite, link_pure]
    refine fresh_bind (fresh_bind (fresh_send trivial) fun _ => ?_) fun _ => fresh_pure _
    split
    · refine fresh_bind (fresh_send trivial) fun r => ?_
      cases r <;> exact fresh_pure _
    · exact fresh_pure _
  | write p pcBuf iOffset pFi =>
    simp only [Callback.program, adbnc_write, link_bind, link_liftM]
    refine fresh_bind (fresh_send trivial) fun _ => fresh_bind (fresh_send trivial) fun r => ?_
    cases r <;> exact fresh_pure _
  | release p pFi =>
    simp only [Callback.program, adbnc_release, FileStatus.release, link_bind, link_liftM]
    refine fresh_bind (fresh_send trivial) fun s => ?_
    cases s p with
    | none => exact fresh_pure _
    | some e =>
      simp only [FileStatus.Entry.release, link_bind, link_liftM, link_ite, link_pure]
      have hset : ∀ f iRes, (setFileStatus f >>= fun _ => pure iRes : Program Sys Int).EachPath
          FillsFresh := fun f iRes => fresh_bind (fresh_send trivial) fun _ => fresh_pure _
      split
      · refine fresh_bind (fresh_send trivial) fun r => ?_
        cases r <;> exact hset _ _
      · exact hset _ _
  | truncate p iSize =>
    simp only [Callback.program, adbnc_truncate, link_bind, link_liftM, link_ite, link_pure]
    refine fresh_bind (doStat_fresh p false) fun r => ?_
    split
    · refine fresh_bind (fresh_send trivial) fun r => ?_
      cases r with
      | error errno => exact fresh_pure _
      | ok x =>
        simp only [link_bind, link_liftM, link_pure]
        exact fresh_bind (fresh_send trivial) fun _ =>
          fresh_bind (fresh_send trivial) fun _ => fresh_pure _
    · exact fresh_pure _
  | rename pcFrom pcTo =>
    simp only [Callback.program, adbnc_rename, link_bind, link_liftM, link_ite, link_pure]
    refine fresh_bind (fresh_send trivial) fun _ => fresh_bind (fresh_send trivial) fun _ =>
      fresh_bind (fresh_send trivial) fun _ => fresh_bind (fresh_send trivial) fun s => ?_
    split
    · exact fresh_bind (fresh_send trivial) fun _ => fresh_pure _
    · exact fresh_pure _
  | flush p pFi => exact fresh_of_changing ((Mutator.flush pFi).changing g p)
  | fsync p pFi => exact fresh_of_changing ((Mutator.fsync pFi).changing g p)
  | utimens p => exact fresh_of_changing (Mutator.utimens.changing g p)
  | mknod p mode rdev => exact fresh_of_changing ((Mutator.mknod mode rdev).changing g p)
  | mkdir p => exact fresh_of_changing (Mutator.mkdir.changing g p)
  | rmdir p => exact fresh_of_changing (Mutator.rmdir.changing g p)
  | unlink p => exact fresh_of_changing (Mutator.unlink.changing g p)

end AdbncFs
