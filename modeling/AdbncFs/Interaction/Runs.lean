import Mathlib.Data.List.Induction
import Mathlib.Tactic.Tauto

/-!
# Runs of calls

A system answers one call after another: `step` gives the answer to a call and the state
after it. `outcomes` is the list of calls with their answers. A statement about some place
in a run splits this list there; `outcomes_eq_append` gives the state in which the call at
that place was made. `Since` is the past-time operator of temporal logic on such a list.
-/

namespace Interaction

section

variable {σ γ ο : Type} (step : γ → σ → ο × σ)

/-- The calls with their answers. -/
def outcomes : List γ → σ → List (γ × ο)
  | [], _ => []
  | c :: cs, s => (c, (step c s).1) :: outcomes cs (step c s).2

/-- The state after the calls. -/
def final : List γ → σ → σ
  | [], s => s
  | c :: cs, s => final cs (step c s).2

variable {step}

theorem final_append (cs ds : List γ) (s : σ) :
    final step (cs ++ ds) s = final step ds (final step cs s) := by
  induction cs generalizing s with
  | nil => rfl
  | cons c cs ih => exact ih _

theorem outcomes_append (cs ds : List γ) (s : σ) :
    outcomes step (cs ++ ds) s = outcomes step cs s ++ outcomes step ds (final step cs s) := by
  induction cs generalizing s with
  | nil => rfl
  | cons c cs ih => exact congrArg (_ :: ·) (ih _)

/-- A place in a run: the calls before it, the call, and the calls after it. -/
theorem outcomes_eq_append {cs : List γ} {s : σ} {pre post : List (γ × ο)} {e : γ × ο} :
    outcomes step cs s = pre ++ e :: post ↔
      ∃ cs₁ cs₂, cs = cs₁ ++ e.1 :: cs₂ ∧ pre = outcomes step cs₁ s ∧
        e.2 = (step e.1 (final step cs₁ s)).1 ∧
        post = outcomes step cs₂ (step e.1 (final step cs₁ s)).2 := by
  obtain ⟨c, o⟩ := e
  constructor
  · intro h
    induction pre generalizing cs s with
    | nil =>
      cases cs with
      | nil => cases h
      | cons d ds =>
        cases h
        exact ⟨[], ds, rfl, rfl, rfl, rfl⟩
    | cons x pre ih =>
      cases cs with
      | nil => cases h
      | cons d ds =>
        rw [outcomes, List.cons_append, List.cons.injEq] at h
        obtain ⟨rfl, h⟩ := h
        obtain ⟨cs₁, cs₂, rfl, rfl, ho, hpost⟩ := ih h
        exact ⟨d :: cs₁, cs₂, rfl, rfl, ho, hpost⟩
  · rintro ⟨cs₁, cs₂, rfl, rfl, ho, rfl⟩
    dsimp only at ho ⊢
    subst ho
    rw [outcomes_append]
    rfl

/-- Two places in a run. -/
theorem outcomes_append_append (pre mid post : List γ) (c d : γ) (s : σ) :
    outcomes step (pre ++ c :: (mid ++ d :: post)) s =
      outcomes step pre s ++ (c, (step c (final step pre s)).1) ::
        (outcomes step mid (step c (final step pre s)).2 ++
          (d, (step d (final step mid (step c (final step pre s)).2)).1) ::
            outcomes step post (step d (final step mid (step c (final step pre s)).2)).2) := by
  rw [outcomes_append, outcomes, outcomes_append, outcomes]

theorem mem_outcomes {cs : List γ} {s : σ} {e : γ × ο} (h : e ∈ outcomes step cs s) :
    e.1 ∈ cs ∧ ∃ s', e.2 = (step e.1 s').1 := by
  obtain ⟨pre, post, h⟩ := List.append_of_mem h
  obtain ⟨cs₁, cs₂, rfl, -, he, -⟩ := outcomes_eq_append.mp h
  exact ⟨by simp, _, he⟩

/-- What holds at the start and is preserved by every call that a run makes holds after
the run. -/
theorem final_induct {I : σ → Prop} {cs : List γ} {s : σ} (hs : I s)
    (hstep : ∀ cs₁ c cs₂, cs = cs₁ ++ c :: cs₂ → I (final step cs₁ s) →
      I (step c (final step cs₁ s)).2) : I (final step cs s) := by
  induction cs generalizing s with
  | nil => exact hs
  | cons c cs ih =>
    refine ih (hstep [] c cs rfl hs) fun cs₁ d cs₂ h hI => ?_
    exact hstep (c :: cs₁) d cs₂ (congrArg (c :: ·) h) hI

end

/-! ## What has held since -/

section

variable {α : Type} {P Q : α → Prop}

/-- A place in a list that was made longer by one: the last place, or one from before. -/
theorem concat_eq_append_cons {H pre post : List α} {e d : α} :
    H ++ [e] = pre ++ d :: post ↔
      pre = H ∧ d = e ∧ post = [] ∨ ∃ post', post = post' ++ [e] ∧ H = pre ++ d :: post' := by
  constructor
  · intro h
    rcases List.eq_nil_or_concat post with rfl | ⟨post, f, rfl⟩
    · obtain ⟨rfl, hlast⟩ := List.append_inj' h rfl
      exact Or.inl ⟨rfl, (List.singleton_inj.mp hlast).symm, rfl⟩
    · rw [List.concat_eq_append, ← List.cons_append, ← List.append_assoc] at h
      obtain ⟨rfl, hlast⟩ := List.append_inj' h rfl
      obtain rfl : e = f := List.singleton_inj.mp hlast
      exact Or.inr ⟨post, List.concat_eq_append, rfl⟩
  · rintro (⟨rfl, rfl, rfl⟩ | ⟨post', rfl, rfl⟩)
    · rfl
    · exact List.append_assoc pre (d :: post') [e]

/-- A place in a list that was made longer: one in the first part or one in the second. -/
theorem append_eq_append_cons {H K pre post : List α} {e : α} (h : H ++ K = pre ++ e :: post) :
    (∃ post', H = pre ++ e :: post') ∨ ∃ pre', pre = H ++ pre' ∧ K = pre' ++ e :: post := by
  rcases List.append_eq_append_iff.mp h with ⟨mid, rfl, hmid⟩ | ⟨mid, rfl, hmid⟩
  · exact Or.inr ⟨mid, rfl, hmid⟩
  · cases mid with
    | nil => exact Or.inr ⟨[], by simp, hmid.symm⟩
    | cons f mid =>
      rw [List.cons_append, List.cons.injEq] at hmid
      obtain ⟨rfl, -⟩ := hmid
      exact Or.inl ⟨mid, rfl⟩

/-- `Q` has held at every place since some place at which `P` held. -/
def Since (P Q : α → Prop) (H : List α) : Prop :=
  ∃ pre e post, H = pre ++ e :: post ∧ P e ∧ ∀ f ∈ post, Q f

theorem not_since_nil : ¬ Since P Q [] := by
  rintro ⟨pre, e, post, h, -⟩
  exact List.append_ne_nil_of_right_ne_nil pre (List.cons_ne_nil e post) h.symm

theorem since_concat {H : List α} {e : α} :
    Since P Q (H ++ [e]) ↔ P e ∨ Since P Q H ∧ Q e := by
  constructor
  · rintro ⟨pre, d, post, h, hd, hpost⟩
    rcases concat_eq_append_cons.mp h with ⟨-, rfl, -⟩ | ⟨post, rfl, rfl⟩
    · exact Or.inl hd
    · exact Or.inr ⟨⟨pre, d, post, rfl, hd, fun f hf => hpost f (by simp [hf])⟩,
        hpost e (by simp)⟩
  · rintro (he | ⟨⟨pre, d, post, rfl, hd, hpost⟩, he⟩)
    · exact ⟨H, e, [], rfl, he, fun f hf => nomatch hf⟩
    · refine ⟨pre, d, post ++ [e], by simp, hd, fun f hf => ?_⟩
      rcases List.mem_append.mp hf with hf | hf
      · exact hpost f hf
      · rw [List.mem_singleton.mp hf]
        exact he

theorem since_append_left {H K : List α} (h : Since P Q K) : Since P Q (H ++ K) := by
  obtain ⟨pre, e, post, rfl, he, hpost⟩ := h
  exact ⟨H ++ pre, e, post, (List.append_assoc H pre (e :: post)).symm, he, hpost⟩

theorem Since.exists_mem {H : List α} (h : Since P Q H) : ∃ e ∈ H, P e := by
  obtain ⟨pre, e, post, rfl, he, -⟩ := h
  exact ⟨e, by simp, he⟩

/-- A property of states that a call brings about with `P` and keeps with `Q`. -/
theorem final_iff_since {σ γ ο : Type} {step : γ → σ → ο × σ} {P Q : γ × ο → Prop}
    (φ : σ → Prop) (hstep : ∀ c s, φ (step c s).2 ↔
      P (c, (step c s).1) ∨ φ s ∧ Q (c, (step c s).1)) (cs : List γ) (s : σ) :
    φ (final step cs s) ↔
      Since P Q (outcomes step cs s) ∨ φ s ∧ ∀ e ∈ outcomes step cs s, Q e := by
  induction cs using List.reverseRecOn with
  | nil => simp [final, outcomes, not_since_nil]
  | append_singleton cs c ih =>
    rw [final_append, outcomes_append]
    change φ (step c (final step cs s)).2 ↔
      Since P Q (outcomes step cs s ++ [(c, (step c (final step cs s)).1)]) ∨ _
    rw [hstep, ih, since_concat]
    simp only [outcomes, List.forall_mem_append, List.forall_mem_singleton]
    tauto

end

end Interaction
