import Mathlib.Data.List.DropRight
import Mathlib.Logic.Function.Basic

/-!
# Stores that write back

A store has a content for each name. Contents are edited beside what is stored, and replace
it when they are saved. `Store.run` takes a list of acts, in which the acts on different
names may come in any order. Two theorems say that each name has a history of its own.

* `content_run`: what a reader sees under a name is what the edits of that name have made of
  what was seen before, whatever was done to the other names in between.
* `stored_run`: what is stored under a name is what a reader saw at the last save of it.
-/

namespace WriteBack

open Function

/-- What is stored under each name, the contents that were edited and are not saved, and the
names that handles are open on. -/
structure Store (ν η δ : Type) where
  stored : ν → Option δ
  unsaved : ν → Option δ
  handles : η → Option ν

inductive Act (ν η δ : Type)
  | opened (p : ν) (fh : η)
  | closed (fh : η)
  | edited (p : ν) (f : δ → δ)
  | saved (p : ν)
  | created (p : ν) (d : δ)

variable {ν η δ : Type}

namespace Store

/-- What a reader sees. -/
def content (s : Store ν η δ) (p : ν) : Option δ := (s.unsaved p).or (s.stored p)

theorem content_of_saved {s : Store ν η δ} {p : ν} (h : s.unsaved p = none) :
    s.content p = s.stored p := by
  rw [content, h, Option.none_or]

/-- A store in which nothing was edited and nothing is open. -/
def atRest (stored : ν → Option δ) : Store ν η δ := ⟨stored, fun _ => none, fun _ => none⟩

variable [DecidableEq ν] [DecidableEq η]

def apply (s : Store ν η δ) : Act ν η δ → Store ν η δ
  | .opened p fh => { s with handles := update s.handles fh (some p) }
  | .closed fh => { s with handles := update s.handles fh none }
  | .edited p f => { s with unsaved := update s.unsaved p ((s.content p).map f) }
  | .saved p =>
    { s with stored := update s.stored p (s.content p), unsaved := update s.unsaved p none }
  | .created p d =>
    { s with stored := update s.stored p (some d), unsaved := update s.unsaved p none }

def run (s : Store ν η δ) (acts : List (Act ν η δ)) : Store ν η δ := acts.foldl apply s

theorem run_concat (s : Store ν η δ) (acts : List (Act ν η δ)) (a : Act ν η δ) :
    s.run (acts ++ [a]) = (s.run acts).apply a := List.foldl_concat ..

end Store

/-! ## The history of a name -/

namespace Act

variable [DecidableEq ν]

/-- What an act makes of the content under `p`. -/
def effect (p : ν) (c : Option δ) : Act ν η δ → Option δ
  | .edited q f => if q = p then c.map f else c
  | .created q d => if q = p then some d else c
  | _ => c

/-- The act is on this name. -/
def About (p : ν) : Act ν η δ → Prop
  | .opened q _ | .edited q _ | .saved q | .created q _ => q = p
  | .closed _ => False

/-- What is seen under `p` is stored after the act. -/
def Stores (p : ν) : Act ν η δ → Bool
  | .saved q | .created q _ => q = p
  | _ => false

end Act

variable [DecidableEq ν]

/-- What the acts make of the content under `p`. -/
def replay (p : ν) (acts : List (Act ν η δ)) (c : Option δ) : Option δ :=
  acts.foldl (Act.effect p) c

theorem replay_concat (p : ν) (acts : List (Act ν η δ)) (a : Act ν η δ) (c : Option δ) :
    replay p (acts ++ [a]) c = a.effect p (replay p acts c) := List.foldl_concat ..

/-- The acts up to the last one that stores `p`. -/
def upToSave (p : ν) (acts : List (Act ν η δ)) : List (Act ν η δ) :=
  acts.rdropWhile fun a => !a.Stores p

theorem upToSave_concat (p : ν) (acts : List (Act ν η δ)) (a : Act ν η δ) :
    upToSave p (acts ++ [a]) = if a.Stores p then acts ++ [a] else upToSave p acts := by
  rw [upToSave, List.rdropWhile_concat]
  cases a.Stores p <;> rfl

namespace Store

variable [DecidableEq η]

theorem content_apply (s : Store ν η δ) (a : Act ν η δ) (p : ν) :
    (s.apply a).content p = a.effect p (s.content p) := by
  cases a with
  | opened q fh => rfl
  | closed fh => rfl
  | edited q f =>
    by_cases h : q = p
    · subst h
      simp only [apply, content, update_self, Act.effect, if_true]
      cases s.unsaved q <;> cases s.stored q <;> rfl
    · simp [apply, content, Act.effect, h, Ne.symm h]
  | saved q =>
    by_cases h : q = p
    · subst h
      simp [apply, content, Act.effect]
    · simp [apply, content, Act.effect, Ne.symm h]
  | created q d =>
    by_cases h : q = p
    · subst h
      simp [apply, content, Act.effect]
    · simp [apply, content, Act.effect, h, Ne.symm h]

theorem stored_apply (s : Store ν η δ) (a : Act ν η δ) (p : ν) :
    (s.apply a).stored p = if a.Stores p then (s.apply a).content p else s.stored p := by
  rw [content_apply]
  cases a with
  | saved q =>
    by_cases h : q = p
    · subst h
      simp [apply, Act.Stores, Act.effect]
    · simp [apply, Act.Stores, h, Ne.symm h]
  | created q d =>
    by_cases h : q = p
    · subst h
      simp [apply, Act.Stores, Act.effect]
    · simp [apply, Act.Stores, h, Ne.symm h]
  | _ => rfl

theorem handles_opened {s : Store ν η δ} {p q : ν} {fh fh' : η}
    (h : (s.apply (.opened p fh)).handles fh' = some q) :
    fh' = fh ∧ p = q ∨ fh' ≠ fh ∧ s.handles fh' = some q := by
  by_cases hf : fh' = fh
  · subst hf
    simp only [apply, update_self, Option.some.injEq] at h
    exact Or.inl ⟨rfl, h⟩
  · simp only [apply, update_of_ne hf] at h
    exact Or.inr ⟨hf, h⟩

theorem handles_closed {s : Store ν η δ} {q : ν} {fh fh' : η}
    (h : (s.apply (.closed fh)).handles fh' = some q) :
    fh' ≠ fh ∧ s.handles fh' = some q := by
  by_cases hf : fh' = fh
  · subst hf
    simp [apply] at h
  · simp only [apply, update_of_ne hf] at h
    exact ⟨hf, h⟩

/-- An act on another name. -/
theorem apply_other {a : Act ν η δ} {p : ν} (h : ¬ a.About p) (s : Store ν η δ) :
    (s.apply a).stored p = s.stored p ∧ (s.apply a).unsaved p = s.unsaved p ∧
      ∀ fh, (s.apply a).handles fh = some p → s.handles fh = some p := by
  cases a with
  | opened q fh =>
    refine ⟨rfl, rfl, fun fh' hfh => ?_⟩
    exact ((handles_opened hfh).resolve_left fun hq => h hq.2).2
  | closed fh => exact ⟨rfl, rfl, fun fh' hfh => (handles_closed hfh).2⟩
  | edited q f => exact ⟨rfl, update_of_ne (Ne.symm h) _ _, fun _ => id⟩
  | saved q =>
    exact ⟨update_of_ne (Ne.symm h) _ _, update_of_ne (Ne.symm h) _ _, fun _ => id⟩
  | created q d =>
    exact ⟨update_of_ne (Ne.symm h) _ _, update_of_ne (Ne.symm h) _ _, fun _ => id⟩

/-- A reader sees what the acts on a name have made of what was seen before. -/
theorem content_run (s : Store ν η δ) (acts : List (Act ν η δ)) (p : ν) :
    (s.run acts).content p = replay p acts (s.content p) := by
  induction acts using List.reverseRecOn with
  | nil => rfl
  | append_singleton acts a ih => rw [run_concat, content_apply, ih, replay_concat]

/-- What is stored is what was seen at the last save. -/
theorem stored_run (stored : ν → Option δ) (acts : List (Act ν η δ)) (p : ν) :
    ((atRest stored : Store ν η δ).run acts).stored p =
      replay p (upToSave p acts) (stored p) := by
  induction acts using List.reverseRecOn with
  | nil => rfl
  | append_singleton acts a ih =>
    rw [run_concat, stored_apply, ih, upToSave_concat]
    split
    · rw [← run_concat, content_run]
      rfl
    · rfl

end Store

end WriteBack
