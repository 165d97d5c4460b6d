import AdbncFs.Coherence.Fills

/-!
# The callbacks that change a path

The seven callbacks that change the path they are called for, as what they do one operation
after another: each changes the device at most once (`Mutator.changing`), and when it does
it invalidates the path, before the change or after it (`Mutator.announces`). All this is
about the paths of the programs, so it holds whatever other threads do in between.
-/

namespace AdbncFs

open Text Interaction

/-! ## Paths that change the device at most once -/

def ChangesOnce (es : List (Event Sys)) : Prop :=
  es.Pairwise fun a b => ¬ (Sys.Op.ChangesDevice a.1 ∧ Sys.Op.ChangesDevice b.1)

/-- A path that only asks the device. -/
def Asking (es : List (Event Sys)) : Prop :=
  FillsFresh es ∧ ∀ e ∈ es, ¬ Sys.Op.ChangesDevice e.1

/-- A path that changes the device at most once. -/
def Changing (es : List (Event Sys)) : Prop := FillsFresh es ∧ ChangesOnce es

/-- Neither a fill nor a change of the device. -/
def Sys.Op.Quiet (op : Sys.Op) : Prop := op.NoFill ∧ ¬ op.ChangesDevice

variable {es ds : List (Event Sys)}

theorem asking_of_quiet (h : ∀ e ∈ es, Sys.Op.Quiet e.1) : Asking es :=
  ⟨fillsFresh_of_noFill fun e he => (h e he).1, fun e he => (h e he).2⟩

theorem Asking.changesOnce (h : Asking es) : ChangesOnce es :=
  List.Pairwise.imp_of_mem (fun ha _ _ hc => h.2 _ ha hc.1)
    (List.pairwise_of_forall fun _ _ => trivial)

theorem Asking.append (hes : Asking es) (hds : Asking ds) : Asking (es ++ ds) :=
  ⟨hes.1.append hds.1, fun e he => (List.mem_append.mp he).elim (hes.2 e) (hds.2 e)⟩

theorem Asking.append_changing (hes : Asking es) (hds : Changing ds) : Changing (es ++ ds) :=
  ⟨hes.1.append hds.1, List.pairwise_append.mpr
    ⟨hes.changesOnce, hds.2, fun a ha _ _ hc => hes.2 a ha hc.1⟩⟩

theorem Changing.append_asking (hes : Changing es) (hds : Asking ds) : Changing (es ++ ds) :=
  ⟨hes.1.append hds.1, List.pairwise_append.mpr
    ⟨hes.2, hds.changesOnce, fun _ _ b hb hc => hds.2 b hb hc.2⟩⟩

section

variable {α β : Type} {p : Program Sys α} {f : α → Program Sys β}

theorem asking_of_uses (h : p.Uses (S := Sys) Sys.Op.Quiet) : p.EachPath Asking :=
  fun _ _ hpath => asking_of_quiet (hpath.of_uses h)

theorem asking_pure (a : α) : (pure a : Program Sys α).EachPath Asking :=
  asking_of_uses (Program.uses_pure a)

theorem asking_send {op : Sys.Op} (h : op.Quiet) :
    (Program.send (S := Sys) op).EachPath Asking := asking_of_uses (Program.uses_send h)

theorem changing_of_asking (h : p.EachPath Asking) : p.EachPath Changing :=
  fun es a hpath => ⟨(h es a hpath).1, (h es a hpath).changesOnce⟩

theorem changing_pure (a : α) : (pure a : Program Sys α).EachPath Changing :=
  changing_of_asking (asking_pure a)

theorem changing_send {op : Sys.Op} (h : op.NoFill) :
    (Program.send (S := Sys) op).EachPath Changing :=
  Program.eachPath_send fun _ =>
    ⟨fillsFresh_of_noFill (by simpa using h), List.pairwise_singleton _ _⟩

theorem asking_bind (hp : p.EachPath Asking) (hf : ∀ a, (f a).EachPath Asking) :
    (p >>= f).EachPath Asking := Program.eachPath_bind Asking.append hp hf

/-- Ask first, then change. -/
theorem changing_bind (hp : p.EachPath Asking) (hf : ∀ a, (f a).EachPath Changing) :
    (p >>= f).EachPath Changing := Program.eachPath_bind Asking.append_changing hp hf

/-- Change first, then ask. -/
theorem changing_bind_asking (hp : p.EachPath Changing) (hf : ∀ a, (f a).EachPath Asking) :
    (p >>= f).EachPath Changing := Program.eachPath_bind Changing.append_asking hp hf

end

section

variable (p : Str)

theorem invalidate_asking : (invalidate p).EachPath Asking := asking_send ⟨trivial, not_false⟩

theorem fileStatus_asking : fileStatus.EachPath Asking := asking_send ⟨trivial, not_false⟩

theorem setFileStatus_asking (f : FileStatus → FileStatus) : (setFileStatus f).EachPath Asking :=
  asking_send ⟨trivial, not_false⟩

theorem syscall_asking (call : Syscall) : (syscall call).EachPath Asking :=
  asking_send ⟨trivial, not_false⟩

theorem statOutput_asking : (statOutput p).EachPath Asking := by
  intro es o hpath
  refine ⟨statOutput_fresh p es o hpath, ?_⟩
  exact hpath.of_uses (uses_statOutput (P := fun op => ¬ op.ChangesDevice) (fun _ h => h)
    (fun _ _ h => h) fun h => h)

theorem getattr_asking (g : Globals) :
    (link g ((Callback.getattr p).program g)).EachPath Asking := by
  simp only [Callback.program, link_bind, link_liftM, link_pure]
  exact asking_bind (asking_bind (statOutput_asking p) fun _ => asking_pure _)
    fun _ => asking_pure _

theorem command_changing (c : Command) :
    (adbncShell c >>= fun _ => pure (0 : Int)).EachPath Changing :=
  changing_bind_asking (changing_send trivial) fun _ => asking_pure _

theorem transfer_changing (g : Globals) (fPush : Bool) (l r : Str) :
    (adbncPushPullCmd g fPush l r).EachPath Changing := by
  refine changing_bind (asking_bind (asking_bind (statOutput_asking _) fun _ => asking_pure _)
    fun _ => asking_pure _) fun iRes => ?_
  split
  · refine changing_bind_asking ?_ fun _ => asking_pure _
    refine changing_bind_asking (changing_send trivial) fun x => ?_
    cases x with
    | none => exact asking_pure _
    | some x =>
      dsimp only
      split <;> exact asking_pure _
  · exact changing_pure _

end

/-! ## The callbacks that change a path -/

/-- A callback that changes the path it is called for. -/
inductive Mutator
  | mkdir
  | rmdir
  | unlink
  | utimens
  | mknod (mode rdev : Nat)
  | flush (pFi : FileInfo)
  | fsync (pFi : FileInfo)

def Mutator.callback (p : Str) : Mutator → Callback
  | mkdir => .mkdir p
  | rmdir => .rmdir p
  | unlink => .unlink p
  | utimens => .utimens p
  | mknod mode rdev => .mknod p mode rdev
  | flush pFi => .flush p pFi
  | fsync pFi => .fsync p pFi

variable (g : Globals) (p : Str)

theorem entryFlush_changing (e : FileStatus.Entry) (l : Str) :
    (link g (e.flush p l)).EachPath Changing := by
  have hset : ∀ (f : FileStatus → FileStatus) (iRes : Int),
      (setFileStatus f >>= fun _ => pure iRes).EachPath Asking :=
    fun f iRes => asking_bind (setFileStatus_asking f) fun _ => asking_pure _
  have hsets : ∀ (f f' : FileStatus → FileStatus) (iRes : Int),
      (setFileStatus f >>= fun _ => setFileStatus f' >>= fun _ => pure iRes).EachPath Asking :=
    fun f f' iRes => asking_bind (setFileStatus_asking f) fun _ => hset f' iRes
  simp only [FileStatus.Entry.flush, link_ite, link_bind, link_liftM, link_adbncPush, link_pure,
    pure_bind]
  split
  · split
    · split
      · exact changing_bind_asking (transfer_changing g true _ p) fun iRes => hsets _ _ iRes
      · exact changing_of_asking (hsets _ _ 0)
    · split
      · exact changing_bind_asking (transfer_changing g true _ p) fun iRes => hset _ iRes
      · exact changing_of_asking (hset _ 0)
  · exact changing_pure _

theorem flushPending_changing : (link g (adbnc_flush.flushPending g p)).EachPath Changing := by
  have hflush : (link g (FileStatus.flush p (g.localPath p))).EachPath Changing := by
    simp only [FileStatus.flush, link_bind, link_liftM]
    refine changing_bind fileStatus_asking fun s => ?_
    cases s p with
    | none => exact changing_pure _
    | some e => exact entryFlush_changing g p e _
  simp only [adbnc_flush.flushPending, link_bind, link_liftM, link_ite]
  refine changing_bind fileStatus_asking fun s => ?_
  split
  · exact changing_bind (invalidate_asking p) fun _ => hflush
  · exact hflush

/-- Each of the callbacks changes the device at most once. -/
theorem Mutator.changing (m : Mutator) :
    (link g ((m.callback p).program g)).EachPath Changing := by
  cases m with
  | mkdir =>
    simp only [callback, Callback.program, adbnc_mkdir, link_bind, link_liftM, link_pure]
    exact changing_bind (invalidate_asking p) fun _ => command_changing _
  | rmdir =>
    simp only [callback, Callback.program, adbnc_rmdir, link_bind, link_liftM, link_pure]
    exact changing_bind (invalidate_asking p) fun _ => command_changing _
  | unlink =>
    simp only [callback, Callback.program, adbnc_unlink, link_bind, link_liftM, link_pure]
    exact changing_bind (invalidate_asking p) fun _ =>
      changing_bind (syscall_asking _) fun _ => command_changing _
  | utimens =>
    simp only [callback, Callback.program, adbnc_utimens, link_bind, link_liftM, link_pure]
    exact changing_bind (invalidate_asking p) fun _ => command_changing _
  | mknod mode rdev =>
    simp only [callback, Callback.program, adbnc_mknod, link_bind, link_liftM]
    refine changing_bind (syscall_asking _) fun r => ?_
    cases r with
    | error errno => exact changing_pure _
    | ok x =>
      simp only [link_bind, link_liftM, link_pure, link_adbncPush, link_ite]
      refine changing_bind_asking (transfer_changing g true _ p) fun iRes => ?_
      have hrest : (invalidate p >>= fun _ => pure iRes).EachPath Asking :=
        asking_bind (invalidate_asking p) fun _ => asking_pure _
      split
      · exact asking_bind (asking_send ⟨trivial, not_false⟩) fun _ => hrest
      · exact hrest
  | flush pFi =>
    simp only [callback, Callback.program, adbnc_flush, link_bind, link_liftM]
    refine changing_bind (syscall_asking _) fun r => ?_
    cases r with
    | error errno =>
      rw [link_ite]
      split
      · exact flushPending_changing g p
      · exact changing_pure _
    | ok x => exact flushPending_changing g p
  | fsync pFi =>
    simp only [callback, Callback.program, adbnc_fsync, link_bind, link_liftM]
    refine changing_bind (syscall_asking _) fun r => ?_
    cases r with
    | error errno => exact changing_pure _
    | ok x =>
      simp only [link_bind, link_liftM, link_pure, link_adbncPush, link_ite]
      refine changing_bind fileStatus_asking fun s => ?_
      split
      · refine changing_bind_asking (transfer_changing g true _ p) fun iRes => ?_
        exact asking_bind (setFileStatus_asking _) fun _ =>
          asking_bind (invalidate_asking p) fun _ => asking_pure _
      · exact changing_pure _

/-! ## Changes are announced -/

/-- The path has an invalidation of `p`. -/
def Invalidates (p : Str) (es : List (Event Sys)) : Prop := invalidated p ∈ es

/-- If the path changes the device, it invalidates `p`, before or after. -/
def Announces (p : Str) (es : List (Event Sys)) : Prop :=
  (∀ e ∈ es, ¬ Sys.Op.ChangesDevice e.1) ∨ Invalidates p es

section

variable {α β : Type} {p : Str} {q : Program Sys α} {f : α → Program Sys β}

theorem announces_pure (a : α) : (pure a : Program Sys α).EachPath (Announces p) :=
  Program.eachPath_pure (Or.inl (by simp)) a

theorem announces_bind (hq : q.EachPath Asking) (hf : ∀ a, (f a).EachPath (Announces p)) :
    (q >>= f).EachPath (Announces p) := by
  refine Program.eachPath_bind (fun {es ds} hes hds => ?_) hq hf
  rcases hds with hds | hds
  · exact Or.inl fun e he => (List.mem_append.mp he).elim (hes.2 e) (hds e)
  · exact Or.inr (List.mem_append_right _ hds)

/-- Invalidating first. -/
theorem invalidate_bind (f : Unit → Program Sys β) :
    (invalidate p >>= f).EachPath (Invalidates p) := by
  have hfirst : (invalidate p).EachPath (Invalidates p) :=
    Program.eachPath_send fun _ => List.mem_singleton_self _
  intro es a hpath
  obtain ⟨es₁, u, es₂, h₁, -, rfl⟩ := Program.path_bind.mp hpath
  exact List.mem_append_left _ (hfirst es₁ u h₁)

/-- Invalidating after something else. -/
theorem bind_invalidates (q : Program Sys α) (hf : ∀ a, (f a).EachPath (Invalidates p)) :
    (q >>= f).EachPath (Invalidates p) := by
  intro es a hpath
  obtain ⟨es₁, x, es₂, -, h₂, rfl⟩ := Program.path_bind.mp hpath
  exact List.mem_append_right _ (hf x es₂ a h₂)

theorem announces_of_invalidates (h : q.EachPath (Invalidates p)) :
    q.EachPath (Announces p) := fun es a hpath => Or.inr (h es a hpath)

end

/-- `fileStatus` is read twice in a row, with different answers. -/
def Rereads (es : List (Event Sys)) : Prop :=
  ∃ as s s' bs, es = as ++ (⟨Sys.Op.fileStatus, s⟩ : Event Sys) :: ⟨Sys.Op.fileStatus, s'⟩ :: bs ∧
    s ≠ s'

/-- The flush tests whether the file is open and then tests it again. -/
theorem flushPending_announces {es : List (Event Sys)} {a : Int}
    (hpath : (link g (adbnc_flush.flushPending g p)).Path es a) :
    Announces p es ∨ ∃ s s' bs,
      es = (⟨Sys.Op.fileStatus, s⟩ : Event Sys) :: ⟨Sys.Op.fileStatus, s'⟩ :: bs ∧ s ≠ s' := by
  simp only [adbnc_flush.flushPending, link_bind, link_liftM, link_ite] at hpath
  obtain ⟨s, es₂, h₂, rfl⟩ := Program.path_send_bind.mp hpath
  by_cases hs : s.pendingOpen p = true
  · rw [if_pos hs] at h₂
    exact Or.inl (Or.inr (List.mem_append_right _ (invalidate_bind _ _ _ h₂)))
  · rw [if_neg hs, FileStatus.flush, link_bind, link_liftM] at h₂
    obtain ⟨s', ds₂, h₄, rfl⟩ := Program.path_send_bind.mp h₂
    by_cases hne : s = s'
    · subst hne
      -- nothing is pending at the second test either, so nothing is pushed
      have hnil : ds₂ = [] := by
        unfold FileStatus.pendingOpen at hs
        cases h : s p with
        | none =>
          rw [h] at h₄
          exact (Program.path_pure.mp h₄).1
        | some e =>
          rw [h] at hs h₄
          dsimp only at h₄
          rw [Option.any_some] at hs
          rw [FileStatus.Entry.flush, link_ite, if_neg hs] at h₄
          exact (Program.path_pure.mp h₄).1
      subst hnil
      refine Or.inl (Or.inl fun e he => ?_)
      rcases List.mem_cons.mp he with rfl | he
      · exact not_false
      · rw [List.mem_singleton.mp he]
        exact not_false
    · exact Or.inr ⟨s, s', ds₂, rfl, hne⟩

theorem Mutator.announces (m : Mutator) {es : List (Event Sys)} {a : Int}
    (hpath : (link g ((m.callback p).program g)).Path es a) : Announces p es ∨ Rereads es := by
  cases m with
  | mkdir =>
    simp only [callback, Callback.program, adbnc_mkdir, link_bind, link_liftM] at hpath
    exact Or.inl (announces_of_invalidates (invalidate_bind _) _ _ hpath)
  | rmdir =>
    simp only [callback, Callback.program, adbnc_rmdir, link_bind, link_liftM] at hpath
    exact Or.inl (announces_of_invalidates (invalidate_bind _) _ _ hpath)
  | unlink =>
    simp only [callback, Callback.program, adbnc_unlink, link_bind, link_liftM] at hpath
    exact Or.inl (announces_of_invalidates (invalidate_bind _) _ _ hpath)
  | utimens =>
    simp only [callback, Callback.program, adbnc_utimens, link_bind, link_liftM] at hpath
    exact Or.inl (announces_of_invalidates (invalidate_bind _) _ _ hpath)
  | mknod mode rdev =>
    refine Or.inl ((?_ : Program.EachPath (Announces p) _) es a hpath)
    simp only [callback, Callback.program, adbnc_mknod, link_bind, link_liftM]
    refine announces_bind (syscall_asking _) fun r => ?_
    cases r with
    | error errno => exact announces_pure _
    | ok x =>
      simp only [link_bind, link_liftM, link_pure, link_adbncPush, link_ite]
      refine announces_of_invalidates (bind_invalidates _ fun iRes => ?_)
      split
      · exact bind_invalidates _ fun _ => invalidate_bind _
      · exact invalidate_bind _
  | flush pFi =>
    simp only [callback, Callback.program, adbnc_flush, link_bind, link_liftM] at hpath
    obtain ⟨r, es₂, h₂, rfl⟩ := Program.path_send_bind.mp hpath
    have hpending : ∀ {es : List (Event Sys)},
        (link g (adbnc_flush.flushPending g p)).Path es a →
        Announces p ((⟨Sys.Op.syscall (.fsync pFi.fh), r⟩ : Event Sys) :: es) ∨
          Rereads ((⟨Sys.Op.syscall (.fsync pFi.fh), r⟩ : Event Sys) :: es) := by
      intro es h
      rcases flushPending_announces g p h with (h | h) | ⟨s, s', bs, rfl, hne⟩
      · exact Or.inl (Or.inl (List.forall_mem_cons.mpr ⟨not_false, h⟩))
      · exact Or.inl (Or.inr (List.mem_cons_of_mem _ h))
      · exact Or.inr ⟨[_], s, s', bs, rfl, hne⟩
    cases r with
    | error errno =>
      rw [link_ite] at h₂
      split at h₂
      · exact hpending h₂
      · obtain ⟨rfl, -⟩ := Program.path_pure.mp h₂
        refine Or.inl (Or.inl fun e he => ?_)
        rw [List.mem_singleton.mp he]
        exact not_false
    | ok x => exact hpending h₂
  | fsync pFi =>
    refine Or.inl ((?_ : Program.EachPath (Announces p) _) es a hpath)
    simp only [callback, Callback.program, adbnc_fsync, link_bind, link_liftM]
    refine announces_bind (syscall_asking _) fun r => ?_
    cases r with
    | error errno => exact announces_pure _
    | ok x =>
      simp only [link_bind, link_liftM, link_pure, link_adbncPush, link_ite]
      refine announces_bind fileStatus_asking fun s => ?_
      split
      · exact announces_of_invalidates (bind_invalidates _ fun _ =>
          bind_invalidates _ fun _ => invalidate_bind _)
      · exact announces_pure _

end AdbncFs
