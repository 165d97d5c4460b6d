import Mathlib.Data.List.AList
import Mathlib.Logic.Function.Basic

/-!
# Members that own objects on the heap

Some members are null or have the address of an object on the heap. `Owns` says that they own
the heap: what they point to is there, no two of them point to the same object, and every
object has a member that points to it. So nothing is deleted twice or read after it was
deleted, and nothing is left behind. The three things a member can do keep it: to delete its
object, to take a new one, and to take a copy of another member's object. All this holds for
every allocator that gives free addresses.
-/

namespace Ownership

open Function

variable {σ α : Type}

/-! ## The heap -/

/-- The objects on the heap by their addresses. -/
abbrev Heap (α : Type) := AList fun _ : Nat => α

/-- Where the next object goes, which is a place without an object. -/
structure Allocator (α : Type) where
  choose : Heap α → Nat
  free : ∀ h, choose h ∉ h

namespace Heap

/-- `new` with a value: the address and the heap. -/
def new (A : Allocator α) (a : α) (h : Heap α) : Nat × Heap α :=
  (A.choose h, h.insert (A.choose h) a)

/-- `delete` of a pointer that may be null. It is undefined where there is no object. -/
def delete (p : Option Nat) (h : Heap α) : Option (Heap α) :=
  match p with
  | none => some h
  | some p => if p ∈ h then some (h.erase p) else none

/-- A new object that is a copy of another one, or null when there is none. -/
def copy (A : Allocator α) (p : Option Nat) (h : Heap α) : Option (Option Nat × Heap α) :=
  match p with
  | none => some (none, h)
  | some p => (h.lookup p).map fun a => (some (h.new A a).1, (h.new A a).2)

end Heap

/-- A number that is at least each of the list. -/
def bound : List Nat → Nat
  | [] => 0
  | p :: ps => p + bound ps

theorem le_bound {p : Nat} {ps : List Nat} (h : p ∈ ps) : p ≤ bound ps := by
  induction ps with
  | nil => cases h
  | cons q ps ih =>
    rw [bound]
    rcases List.mem_cons.mp h with rfl | h
    · omega
    · have := ih h
      omega

/-- An allocator that never gives a certain address. -/
def Allocator.avoiding (p : Nat) : Allocator α where
  choose h := bound (p :: h.keys) + 1
  free h hmem := by
    have hle := le_bound (List.mem_cons_of_mem p (AList.mem_keys.mp hmem))
    omega

theorem Allocator.avoiding_ne (p : Nat) (h : Heap α) :
    (Allocator.avoiding p).choose h ≠ p := by
  have hle : p ≤ bound (p :: h.keys) := le_bound List.mem_cons_self
  show bound (p :: h.keys) + 1 ≠ p
  omega

/-! ## Owners -/

structure Owns (own : σ → Option Nat) (h : Heap α) : Prop where
  alive : ∀ s p, own s = some p → p ∈ h
  exclusive : ∀ s t p, own s = some p → own t = some p → s = t
  owned : ∀ p ∈ h, ∃ s, own s = some p

/-- The object of a member, unless it is null. -/
def held (own : σ → Option Nat) (h : Heap α) (s : σ) : Option α := (own s).bind h.lookup

variable {own : σ → Option Nat} {h : Heap α} {s t : σ} {p : Nat}

theorem held_of_some (hown : own s = some p) : held own h s = h.lookup p := by
  rw [held, hown, Option.bind_some]

theorem held_of_none (hown : own s = none) : held own h s = none := by
  rw [held, hown, Option.bind_none]

theorem Owns.exists_held (ho : Owns own h) (hown : own s = some p) :
    ∃ a, h.lookup p = some a := Option.isSome_iff_exists.mp
  (AList.lookup_isSome.mpr (ho.alive s p hown))

/-- Where no member has an object the heap is empty. -/
theorem Owns.eq_empty (ho : Owns own h) (hnone : ∀ s, own s = none) : h = ∅ := by
  apply AList.ext
  apply List.eq_nil_iff_forall_not_mem.mpr
  intro e he
  have hmem : e.1 ∈ h := AList.mem_keys.mpr (List.mem_map_of_mem he)
  obtain ⟨s, hs⟩ := ho.owned e.1 hmem
  rw [hnone s] at hs
  cases hs

theorem owns_empty : Owns (fun _ : σ => none) (∅ : Heap α) where
  alive s p hs := by cases hs
  exclusive s t p hs := by cases hs
  owned p hp := absurd hp (AList.notMem_empty p)

variable [DecidableEq σ]

/-- A member deletes its object, if it has one. -/
theorem Owns.delete (ho : Owns own h) (s : σ) :
    ∃ h', h.delete (own s) = some h' ∧ Owns (update own s none) h' ∧
      held (update own s none) h' = update (held own h) s none := by
  cases hown : own s with
  | none =>
    have hsame : update own s none = own := by
      rw [← hown]
      exact update_eq_self s own
    refine ⟨h, rfl, ?_, ?_⟩
    · rw [hsame]
      exact ho
    · rw [hsame, ← held_of_none (h := h) hown]
      exact (update_eq_self s _).symm
  | some p =>
    have hp := ho.alive s p hown
    refine ⟨h.erase p, if_pos hp, ⟨?_, ?_, ?_⟩, ?_⟩
    · intro t q ht
      by_cases hts : t = s
      · subst hts
        rw [update_self] at ht
        cases ht
      · rw [update_of_ne hts] at ht
        refine AList.mem_erase.mpr ⟨?_, ho.alive t q ht⟩
        rintro rfl
        exact hts (ho.exclusive t s q ht hown)
    · intro t u q ht hu
      by_cases hts : t = s
      · subst hts
        rw [update_self] at ht
        cases ht
      · by_cases hus : u = s
        · subst hus
          rw [update_self] at hu
          cases hu
        · rw [update_of_ne hts] at ht
          rw [update_of_ne hus] at hu
          exact ho.exclusive t u q ht hu
    · intro q hq
      obtain ⟨hqp, hq⟩ := AList.mem_erase.mp hq
      obtain ⟨t, ht⟩ := ho.owned q hq
      refine ⟨t, ?_⟩
      rw [update_of_ne, ht]
      rintro rfl
      exact hqp (Option.some.inj (ht.symm.trans hown))
    · funext t
      by_cases hts : t = s
      · subst hts
        rw [update_self, held_of_none (update_self t none own)]
      · rw [update_of_ne hts]
        have hsame : update own s none t = own t := update_of_ne hts none own
        cases ht : own t with
        | none => rw [held_of_none ht, held_of_none (hsame.trans ht)]
        | some q =>
          have hqp : q ≠ p := by
            rintro rfl
            exact hts (ho.exclusive t s q ht hown)
          rw [held_of_some ht, held_of_some (hsame.trans ht), AList.lookup_erase_ne hqp]

/-- A member without an object takes a new one. -/
theorem Owns.new (ho : Owns own h) (hnull : own s = none) (A : Allocator α) (a : α) :
    Owns (update own s (some (h.new A a).1)) (h.new A a).2 ∧
      held (update own s (some (h.new A a).1)) (h.new A a).2 =
        update (held own h) s (some a) := by
  have hfree : A.choose h ∉ h := A.free h
  have hne : ∀ t q, own t = some q → q ≠ A.choose h := by
    rintro t q ht rfl
    exact hfree (ho.alive t _ ht)
  refine ⟨⟨?_, ?_, ?_⟩, ?_⟩
  · intro t q ht
    by_cases hts : t = s
    · subst hts
      rw [update_self] at ht
      exact (AList.mem_insert h).mpr (Or.inl (Option.some.inj ht).symm)
    · rw [update_of_ne hts] at ht
      exact (AList.mem_insert h).mpr (Or.inr (ho.alive t q ht))
  · intro t u q ht hu
    by_cases hts : t = s <;> by_cases hus : u = s
    · rw [hts, hus]
    · subst hts
      rw [update_self] at ht
      rw [update_of_ne hus] at hu
      exact absurd (Option.some.inj ht).symm (hne u q hu)
    · subst hus
      rw [update_self] at hu
      rw [update_of_ne hts] at ht
      exact absurd (Option.some.inj hu).symm (hne t q ht)
    · rw [update_of_ne hts] at ht
      rw [update_of_ne hus] at hu
      exact ho.exclusive t u q ht hu
  · intro q hq
    rcases (AList.mem_insert h).mp hq with rfl | hq
    · exact ⟨s, update_self s _ own⟩
    · obtain ⟨t, ht⟩ := ho.owned q hq
      refine ⟨t, ?_⟩
      rw [update_of_ne, ht]
      rintro rfl
      rw [hnull] at ht
      cases ht
  · funext t
    by_cases hts : t = s
    · subst hts
      rw [update_self, held_of_some (update_self t _ own)]
      exact AList.lookup_insert h
    · rw [update_of_ne hts]
      have hsame : update own s (some (h.new A a).1) t = own t := update_of_ne hts _ own
      cases ht : own t with
      | none => rw [held_of_none ht, held_of_none (hsame.trans ht)]
      | some q =>
        rw [held_of_some ht, held_of_some (hsame.trans ht)]
        exact AList.lookup_insert_ne (hne t q ht)

/-- A member without an object takes a copy of what another one has. -/
theorem Owns.copy (ho : Owns own h) (hnull : own s = none) (A : Allocator α) (t : σ) :
    ∃ r, h.copy A (own t) = some r ∧ Owns (update own s r.1) r.2 ∧
      held (update own s r.1) r.2 = update (held own h) s (held own h t) := by
  cases ht : own t with
  | none =>
    have hsame : update own s none = own := by
      rw [← hnull]
      exact update_eq_self s own
    refine ⟨(none, h), rfl, ?_, ?_⟩
    · rw [hsame]
      exact ho
    · rw [hsame, held_of_none ht, ← held_of_none (h := h) hnull]
      exact (update_eq_self s _).symm
  | some p =>
    obtain ⟨a, ha⟩ := ho.exists_held ht
    obtain ⟨hnew, hheld⟩ := ho.new hnull A a
    refine ⟨(some (h.new A a).1, (h.new A a).2), ?_, hnew, ?_⟩
    · show (h.lookup p).map _ = _
      rw [ha, Option.map_some]
    · rw [held_of_some ht, ha]
      exact hheld

/-! ## An address that is not given again -/

/-- Nothing brings an object back to an address that the allocator avoids. -/
theorem not_mem_new (A : Allocator α) (a : α) (hA : ∀ h, A.choose h ≠ p) (hp : p ∉ h) :
    p ∉ (h.new A a).2 := by
  intro hmem
  rcases (AList.mem_insert h).mp hmem with rfl | hmem
  · exact hA h rfl
  · exact hp hmem

theorem not_mem_delete {q : Option Nat} {h' : Heap α} (hdelete : h.delete q = some h')
    (hp : p ∉ h) : p ∉ h' := by
  cases q with
  | none =>
    cases hdelete
    exact hp
  | some q =>
    rw [Heap.delete] at hdelete
    split at hdelete
    · cases hdelete
      exact fun hmem => hp (AList.mem_erase.mp hmem).2
    · cases hdelete

theorem not_mem_of_delete {q : Option Nat} {h' : Heap α} (hq : q = some p)
    (hdelete : h.delete q = some h') : p ∉ h' := by
  subst hq
  rw [Heap.delete] at hdelete
  split at hdelete
  · cases hdelete
    exact fun hmem => (AList.mem_erase.mp hmem).1 rfl
  · cases hdelete

theorem not_mem_copy (A : Allocator α) {q : Option Nat} {r : Option Nat × Heap α}
    (hcopy : h.copy A q = some r) (hA : ∀ h, A.choose h ≠ p) (hp : p ∉ h) : p ∉ r.2 := by
  cases q with
  | none =>
    cases hcopy
    exact hp
  | some q =>
    obtain ⟨a, -, rfl⟩ := Option.map_eq_some_iff.mp hcopy
    exact not_mem_new A a hA hp

end Ownership
