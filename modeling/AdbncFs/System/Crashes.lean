import AdbncFs.System.Linking

/-!
# Calls without a result

A call may end without a result: its behaviour is undefined, as that of a parser whose line does not
fit its array, or an exception leaves it that nobody catches.
-/

namespace AdbncFs

open Text Interaction

/-- How a call ends without a result. -/
inductive Crash
  | undefined
  | uncaught (e : Exception)
  deriving DecidableEq

/-- What a function computes where its behaviour is defined. -/
def defined {α : Type} : Option α → Except Crash α
  | some a => .ok a
  | none => .error .undefined

variable {ε α β : Type} (env : Env ε) (w : World ε)

/-- The call ends with a result. -/
def Returns (x : ExceptT Crash (Program Sys) α) : Prop :=
  ∃ a, (x.run.run env.handle w).1 = .ok a

theorem run_lift_bind (p : Program Sys α) (f : α → ExceptT Crash (Program Sys) β) :
    ((liftM p >>= f : ExceptT Crash (Program Sys) β).run.run env.handle w) =
      (f (p.run env.handle w).1).run.run env.handle (p.run env.handle w).2 := by
  change (ExceptT.lift p >>= f).run.run env.handle w = _
  rw [ExceptT.run_bind_lift, Program.run_bind]

theorem run_ofExcept (r : Except Crash α) :
    (ofExcept r : ExceptT Crash (Program Sys) α).run.run env.handle w = (r, w) := by
  cases r <;> rfl

theorem returns_bind {x : ExceptT Crash (Program Sys) α}
    {f : α → ExceptT Crash (Program Sys) β} :
    Returns env w (x >>= f) ↔
      ∃ a, (x.run.run env.handle w).1 = .ok a ∧
        Returns env (x.run.run env.handle w).2 (f a) := by
  rw [Returns, ExceptT.run_bind, Program.run_bind]
  cases (x.run.run env.handle w).1 with
  | ok a => simp [Returns]
  | error e => simp

end AdbncFs
