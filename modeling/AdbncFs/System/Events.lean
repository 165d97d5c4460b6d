import AdbncFs.System.Linking

/-!
# All that a call does

`Callback.observe` is `Callback.step` with every operation of the call written down together
with its answer. `Observed.pushed` picks the pushes; without their answers these are the
pushes that `Callback.step` counts (`pushed_fst`).
-/

namespace AdbncFs

open Text Interaction

/-- What a call gives, and all it did on the way. -/
structure Observed where
  result : Int
  events : List (Event Linked)

/-- The calls made so far with all they did. -/
abbrev CallTrace := List (Callback × Observed)

/-- A push with its answer. -/
abbrev Push := (Str × Str) × Int

def pushOf : Event Linked → Option Push
  | ⟨.adbncPush l r, answer⟩ => some ((l, r), answer)
  | _ => none

def Observed.pushed (o : Observed) : List Push := o.events.filterMap pushOf

/-- A push of `l` to `p` that succeeds. -/
def Observed.PushSucceeds (l p : Str) (o : Observed) : Prop := ((l, p), 0) ∈ o.pushed

variable {ε α β : Type} (env : Env ε) (g : Globals)

def Callback.observe (c : Callback) (w : World ε) : Observed × World ε :=
  (⟨(c.step env g w).1.result, (c.program g).trace (env.system g) (w, [])⟩, (c.step env g w).2)

@[simp] theorem observe_result (c : Callback) (w : World ε) :
    (c.observe env g w).1.result = (c.step env g w).1.result := rfl

@[simp] theorem final_observe (cs : List Callback) (w : World ε) :
    final (Callback.observe env g) cs w = final (Callback.step env g) cs w := by
  induction cs generalizing w with
  | nil => rfl
  | cons c cs ih => exact ih _

/-! ## The events of a program -/

/-- An operation that needs no `adbncPush`, among the others. -/
def sysEvent (e : Event Sys) : Event Linked := ⟨.sys e.1, e.2⟩

@[simp] theorem trace_sysCalls (p : Program Sys α) (s : World ε × Pushes) :
    (sysCalls p).trace (env.system g) s = (p.trace env.handle s.1).map sysEvent := by
  induction p generalizing s with
  | ret a => rfl
  | call op k ih => exact congrArg (_ :: ·) (ih _ _)

@[simp] theorem trace_liftM (p : Program Sys α) (s : World ε × Pushes) :
    (liftM p : Program Linked α).trace (env.system g) s =
      (p.trace env.handle s.1).map sysEvent := trace_sysCalls env g p s

@[simp] theorem trace_syscall (call : Syscall) (w : World ε) :
    (syscall call).trace env.handle w = [⟨.syscall call, (env.syscall call w.env).1⟩] := rfl

/-! ## The pushes of a program -/

def pushedBy (p : Program Linked α) (s : World ε × Pushes) : List Push :=
  (p.trace (env.system g) s).filterMap pushOf

@[simp] theorem pushedBy_pure (a : α) (s : World ε × Pushes) :
    pushedBy env g (pure a) s = [] := rfl

@[simp] theorem pushedBy_bind (p : Program Linked α) (f : α → Program Linked β)
    (s : World ε × Pushes) :
    pushedBy env g (p >>= f) s = pushedBy env g p s ++
      pushedBy env g (f (p.run (env.system g) s).1) (p.run (env.system g) s).2 := by
  rw [pushedBy, Program.trace_bind, List.filterMap_append]
  rfl

@[simp] theorem pushedBy_map (p : Program Linked α) (f : α → β) (s : World ε × Pushes) :
    pushedBy env g (f <$> p) s = pushedBy env g p s := by
  rw [← bind_pure_comp, pushedBy_bind, pushedBy_pure, List.append_nil]

@[simp] theorem pushedBy_ite (c : Prop) [Decidable c] (p q : Program Linked α)
    (s : World ε × Pushes) :
    pushedBy env g (if c then p else q) s =
      if c then pushedBy env g p s else pushedBy env g q s := by
  split <;> rfl

@[simp] theorem pushedBy_liftM (p : Program Sys α) (s : World ε × Pushes) :
    pushedBy env g (liftM p) s = [] := by
  have hnone : ∀ e : Event Sys, pushOf (sysEvent e) = none := fun _ => rfl
  rw [pushedBy, trace_liftM, List.filterMap_map, List.filterMap_eq_nil_iff]
  exact fun e _ => hnone e

@[simp] theorem pushedBy_adbncPush (l r : Str) (s : World ε × Pushes) :
    pushedBy env g (adbncPush l r) s =
      [((l, r), ((adbncPushPullCmd g true l r).run env.handle s.1).1)] := rfl

theorem observe_pushed (c : Callback) (w : World ε) :
    (c.observe env g w).1.pushed = pushedBy env g (c.program g) (w, []) := rfl

theorem pushedBy_fst (p : Program Linked α) (w : World ε) (ps : Pushes) :
    (p.run (env.system g) (w, ps)).2.2 = ps ++ (pushedBy env g p (w, ps)).map Prod.fst := by
  induction p generalizing w ps with
  | ret a => exact (List.append_nil ps).symm
  | call op k ih =>
    cases op with
    | sys op => exact ih _ _ _
    | adbncPush l r => exact (ih _ _ _).trans (List.append_assoc ps [(l, r)] _)

/-- The pushes that a call asks for are those written down with their answers. -/
theorem pushed_fst (c : Callback) (w : World ε) :
    (c.observe env g w).1.pushed.map Prod.fst = (c.step env g w).1.pushes :=
  (pushedBy_fst env g (c.program g) w []).symm

end AdbncFs
