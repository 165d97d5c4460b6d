import Mathlib.Data.List.Infix
import Mathlib.Data.Nat.Find

/-!
# Cutting at the occurrences of a pattern

The pieces of a list, over any type, that the leftmost occurrences of a pattern leave which do not
overlap. Every list has exactly one list of them.
-/

namespace Text

variable {α : Type} {pat : List α}

/-- The pieces between the leftmost occurrences of `pat` that do not overlap. -/
inductive Cut (pat : List α) : List α → List (List α) → Prop
  | last {s : List α} (hnone : ¬ pat <:+: s) : Cut pat s [s]
  | next {a s : List α} {ps : List (List α)}
      (hleft : ∀ j < a.length, ¬ pat <+: (a ++ (pat ++ s)).drop j) (hrest : Cut pat s ps) :
      Cut pat (a ++ (pat ++ s)) (a :: ps)

namespace Cut

theorem ne_nil {s : List α} {ps : List (List α)} (h : Cut pat s ps) : ps ≠ [] := by
  cases h with
  | last hnone => exact List.cons_ne_nil _ _
  | next hleft hrest => exact List.cons_ne_nil _ _

/-- How a list is cut: not at all, or at the first occurrence and then behind it. -/
theorem inversion {s : List α} {ps : List (List α)} (h : Cut pat s ps) :
    (¬ pat <:+: s ∧ ps = [s]) ∨
      ∃ a b qs, s = a ++ (pat ++ b) ∧ (∀ j < a.length, ¬ pat <+: s.drop j) ∧ Cut pat b qs ∧
        ps = a :: qs := by
  cases h with
  | last hnone => exact Or.inl ⟨hnone, rfl⟩
  | next hleft hrest => exact Or.inr ⟨_, _, _, rfl, hleft, hrest, rfl⟩

theorem infix_middle (a b : List α) : pat <:+: a ++ (pat ++ b) :=
  ⟨a, b, List.append_assoc a pat b⟩

theorem prefix_drop_middle (a b : List α) : pat <+: (a ++ (pat ++ b)).drop a.length := by
  rw [List.drop_left]
  exact List.prefix_append pat b

/-- There is one first occurrence. -/
theorem first_unique {a s b t : List α} (heq : a ++ (pat ++ s) = b ++ (pat ++ t))
    (ha : ∀ j < a.length, ¬ pat <+: (a ++ (pat ++ s)).drop j)
    (hb : ∀ j < b.length, ¬ pat <+: (b ++ (pat ++ t)).drop j) : a = b ∧ s = t := by
  have hlength : a.length = b.length := by
    rcases Nat.lt_trichotomy a.length b.length with hlt | hsame | hgt
    · refine absurd ?_ (hb _ hlt)
      rw [← heq]
      exact prefix_drop_middle a s
    · exact hsame
    · refine absurd ?_ (ha _ hgt)
      rw [heq]
      exact prefix_drop_middle b t
  obtain ⟨rfl, hbehind⟩ := List.append_inj heq hlength
  exact ⟨rfl, List.append_cancel_left hbehind⟩

theorem unique {s : List α} {ps ps' : List (List α)} (h : Cut pat s ps) (h' : Cut pat s ps') :
    ps = ps' := by
  induction h generalizing ps' with
  | last hnone =>
    rcases h'.inversion with ⟨-, rfl⟩ | ⟨a, b, qs, rfl, -, -, -⟩
    · rfl
    · exact absurd (infix_middle a b) hnone
  | @next a s ps hleft hrest ih =>
    rcases h'.inversion with ⟨hnone, -⟩ | ⟨a', b, qs, heq, hleft', hcut, rfl⟩
    · exact absurd (infix_middle a s) hnone
    · rw [heq] at hleft'
      obtain ⟨rfl, rfl⟩ := first_unique heq hleft hleft'
      rw [ih hcut]

end Cut

/-- Every list can be cut. -/
theorem exists_cut (hpat : pat ≠ []) (s : List α) : ∃ ps, Cut pat s ps := by
  generalize hn : s.length = n
  induction n using Nat.strongRecOn generalizing s with
  | ind n ih =>
    by_cases hocc : pat <:+: s
    · -- the first place at which the pattern occurs
      have hplace : ∃ j, pat <+: s.drop j := by
        obtain ⟨a, b, rfl⟩ := hocc
        refine ⟨a.length, ?_⟩
        rw [List.append_assoc]
        exact Cut.prefix_drop_middle a b
      classical
      obtain ⟨b, hb⟩ := Nat.find_spec hplace
      have hmin : ∀ j < Nat.find hplace, ¬ pat <+: s.drop j := fun j hj => Nat.find_min hplace hj
      generalize Nat.find hplace = i at hb hmin
      have hs : s = s.take i ++ (pat ++ b) := by rw [hb, List.take_append_drop]
      have hlt : b.length < n := by
        have hlength := congrArg List.length hs
        have hpos := List.length_pos_iff.mpr hpat
        simp only [List.length_append] at hlength
        omega
      obtain ⟨ps, hcut⟩ := ih _ hlt b rfl
      refine ⟨s.take i :: ps, ?_⟩
      have hleft : ∀ j < (s.take i).length, ¬ pat <+: (s.take i ++ (pat ++ b)).drop j := by
        intro j hj
        rw [← hs]
        exact hmin j (Nat.lt_of_lt_of_le hj (List.length_take_le i s))
      have hnext := Cut.next hleft hcut
      rwa [← hs] at hnext
    · exact ⟨[s], Cut.last hocc⟩

/-- A list, or what stands behind one of its leftmost occurrences of `pat` that do not overlap. -/
inductive Behind (pat : List α) : List α → List α → Prop
  | whole (s : List α) : Behind pat s s
  | next {a s t : List α} (hleft : ∀ j < a.length, ¬ pat <+: (a ++ (pat ++ s)).drop j)
      (hrest : Behind pat s t) : Behind pat (a ++ (pat ++ s)) t

theorem Behind.eq_or_length_le {s t : List α} (h : Behind pat s t) :
    t = s ∨ ∃ a b, s = a ++ (pat ++ b) ∧ (∀ j < a.length, ¬ pat <+: s.drop j) ∧
      t.length ≤ b.length := by
  induction h with
  | whole s => exact Or.inl rfl
  | @next a s t hleft hrest ih =>
    refine Or.inr ⟨a, s, rfl, hleft, ?_⟩
    rcases ih with rfl | ⟨b, c, rfl, -, hle⟩
    · exact Nat.le_refl _
    · simp only [List.length_append]
      omega

/-- Nothing is left of a list that is joined to nothing: it is made of occurrences, and of one only
if the separator is not empty. -/
theorem Cut.intercalate_eq_nil_iff (hpat : pat ≠ []) (sep : List α) {s : List α}
    {ps : List (List α)} (h : Cut pat s ps) :
    sep.intercalate ps = [] ↔
      ∃ n, s = (List.replicate n pat).flatten ∧ (n = 0 ∨ sep = []) := by
  induction h with
  | @last s hnone =>
    rw [List.intercalate_singleton]
    constructor
    · rintro rfl
      exact ⟨0, rfl, Or.inl rfl⟩
    · rintro ⟨n, rfl, -⟩
      cases n with
      | zero => rfl
      | succ n =>
        rw [List.replicate_succ, List.flatten_cons] at hnone
        exact absurd (List.prefix_append pat _).isInfix hnone
  | @next a s ps hleft hrest ih =>
    rw [List.intercalate_cons_of_ne_nil hrest.ne_nil, List.append_eq_nil_iff,
      List.append_eq_nil_iff, ih]
    constructor
    · rintro ⟨⟨rfl, hsep⟩, n, rfl, -⟩
      exact ⟨n + 1, by rw [List.replicate_succ, List.flatten_cons]; rfl, Or.inr hsep⟩
    · rintro ⟨n, hs, hor⟩
      cases n with
      | zero =>
        have hlength := congrArg List.length hs
        have hpos := List.length_pos_iff.mpr hpat
        simp only [List.length_append, List.replicate_zero, List.flatten_nil,
          List.length_nil] at hlength
        omega
      | succ n =>
        have hsep : sep = [] := hor.resolve_left (Nat.succ_ne_zero n)
        rw [List.replicate_succ, List.flatten_cons] at hs
        have hnil : a = [] := by
          by_contra hne
          refine hleft 0 (List.length_pos_iff.mpr hne) ?_
          rw [hs, List.drop_zero]
          exact List.prefix_append pat _
        subst hnil
        exact ⟨⟨rfl, hsep⟩, n, List.append_cancel_left hs, Or.inr hsep⟩

/-- What is made of occurrences has nothing behind the last one. -/
theorem behind_replicate (pat : List α) (n : Nat) :
    Behind pat (List.replicate n pat).flatten [] := by
  induction n with
  | zero => exact Behind.whole []
  | succ n ih =>
    rw [List.replicate_succ, List.flatten_cons]
    exact Behind.next (a := []) (fun j hj => absurd hj (Nat.not_lt_zero j)) ih

end Text
