import Mathlib.Data.List.Basic
import Mathlib.Data.List.Perm.Basic

/-!
# Maximal pieces

The pieces of a list between separators, over any type: the places from which on and up to which
a piece reaches, such that it has no separator and neither end can be moved outwards. A list has
exactly one list of its pieces in order.
-/

namespace Text

variable {α : Type} {sep : α → Prop}

/-- From `i` up to `j` there is no separator, and neither end can be moved outwards. -/
structure MaximalPiece (sep : α → Prop) (s : List α) (i j : Nat) : Prop where
  nonempty : i < j
  inside : j ≤ s.length
  free : ∀ k c, i ≤ k → k < j → s[k]? = some c → ¬ sep c
  left : ∀ k c, k + 1 = i → s[k]? = some c → sep c
  right : ∀ c, s[j]? = some c → sep c

/-- The maximal pieces, from left to right. -/
def MaximalPieces (sep : α → Prop) (s : List α) (ts : List (List α)) : Prop :=
  ∃ places : List (Nat × Nat), places.Pairwise (fun p q => p.1 < q.1) ∧
    (∀ p, p ∈ places ↔ MaximalPiece sep s p.1 p.2) ∧
    ts = places.map fun p => (s.take p.2).drop p.1

theorem MaximalPieces.unique {s : List α} {ts ts' : List (List α)} (h : MaximalPieces sep s ts)
    (h' : MaximalPieces sep s ts') : ts = ts' := by
  obtain ⟨places, hsorted, hmem, rfl⟩ := h
  obtain ⟨places', hsorted', hmem', rfl⟩ := h'
  have hne : ∀ {l : List (Nat × Nat)}, l.Pairwise (fun p q => p.1 < q.1) → l.Nodup := by
    intro l hl
    refine hl.imp ?_
    rintro p q hpq rfl
    exact Nat.lt_irrefl _ hpq
  have hperm : places.Perm places' :=
    (List.perm_ext_iff_of_nodup (hne hsorted) (hne hsorted')).mpr fun p =>
      (hmem p).trans (hmem' p).symm
  have heq : places = places' := by
    refine hperm.eq_of_pairwise ?_ hsorted hsorted'
    intro p q _ _ hpq hqp
    omega
  rw [heq]

theorem maximalPieces_nil : MaximalPieces sep ([] : List α) [] := by
  refine ⟨[], List.Pairwise.nil, fun p => ?_, rfl⟩
  simp only [List.not_mem_nil, false_iff]
  intro h
  have := h.nonempty
  have := h.inside
  simp only [List.length_nil] at this
  omega

theorem exists_getElem? {s : List α} {k : Nat} (h : k < s.length) : ∃ c, s[k]? = some c :=
  ⟨s.get ⟨k, h⟩, List.getElem?_eq_getElem h⟩

theorem getElem?_length_add (t s : List α) (k : Nat) : (t ++ s)[t.length + k]? = s[k]? := by
  rw [List.getElem?_append_right (Nat.le_add_right _ _), Nat.add_sub_cancel_left]

/-- Behind a text that ends with a separator the pieces are those of the rest; where it does not,
those that start later. -/
theorem maximalPiece_append_iff {t s : List α} {i j : Nat}
    (hi : i = 0 → ∀ c, t.getLast? = some c → sep c) :
    MaximalPiece sep (t ++ s) (t.length + i) (t.length + j) ↔ MaximalPiece sep s i j := by
  constructor
  · intro h
    refine ⟨by have := h.nonempty; omega, ?_, ?_, ?_, ?_⟩
    · have := h.inside
      rw [List.length_append] at this
      omega
    · intro k c hik hkj hc
      exact h.free (t.length + k) c (by omega) (by omega) (by rwa [getElem?_length_add])
    · rintro k c rfl hc
      exact h.left (t.length + k) c rfl (by rwa [getElem?_length_add])
    · intro c hc
      exact h.right c (by rwa [getElem?_length_add])
  · intro h
    refine ⟨by have := h.nonempty; omega, ?_, ?_, ?_, ?_⟩
    · have := h.inside
      rw [List.length_append]
      omega
    · intro k c hik hkj hc
      obtain ⟨k, rfl⟩ := Nat.exists_eq_add_of_le (show t.length ≤ k by omega)
      rw [getElem?_length_add] at hc
      exact h.free k c (by omega) (by omega) hc
    · intro k c hk hc
      cases i with
      | zero =>
        refine hi rfl c ?_
        rw [List.getLast?_eq_getElem?, ← hc, List.getElem?_append_left (by omega)]
        congr 1
        omega
      | succ i =>
        have hk' : k = t.length + i := by omega
        rw [hk', getElem?_length_add] at hc
        exact h.left i c rfl hc
    · intro c hc
      rw [getElem?_length_add] at hc
      exact h.right c hc

/-- The pieces of a list behind `t`, at their places in the longer list. -/
theorem map_shift (t s : List α) (places : List (Nat × Nat)) :
    (places.map fun p => (t.length + p.1, t.length + p.2)).map
        (fun p => ((t ++ s).take p.2).drop p.1) =
      places.map fun p => (s.take p.2).drop p.1 := by
  rw [List.map_map]
  refine List.map_congr_left fun p _ => ?_
  dsimp only [Function.comp_apply]
  rw [List.take_length_add_append, List.drop_length_add_append]

theorem pairwise_shift (n : Nat) {places : List (Nat × Nat)}
    (h : places.Pairwise (fun p q => p.1 < q.1)) :
    (places.map fun p => (n + p.1, n + p.2)).Pairwise (fun p q => p.1 < q.1) := by
  rw [List.pairwise_map]
  exact h.imp fun hpq => Nat.add_lt_add_left hpq n

/-- A separator in front changes nothing. -/
theorem MaximalPieces.cons {c : α} (hc : sep c) {s : List α} {ts : List (List α)}
    (h : MaximalPieces sep s ts) : MaximalPieces sep (c :: s) ts := by
  obtain ⟨places, hsorted, hmem, rfl⟩ := h
  have hlast : ∀ d, [c].getLast? = some d → sep d := by
    rintro d hd
    cases hd
    exact hc
  have hone : [c].length = 1 := rfl
  show MaximalPieces sep ([c] ++ s) _
  refine ⟨places.map fun p => ([c].length + p.1, [c].length + p.2), pairwise_shift _ hsorted,
    fun p => ?_, (map_shift [c] s places).symm⟩
  rw [List.mem_map]
  constructor
  · rintro ⟨q, hq, rfl⟩
    exact (maximalPiece_append_iff (t := [c]) fun _ => hlast).mpr ((hmem q).mp hq)
  · intro hp
    -- a piece does not start at the separator
    have hpos : 0 < p.1 := by
      by_contra hzero
      have hnonempty := hp.nonempty
      exact hp.free 0 c (by omega) (by omega) rfl hc
    have hnonempty := hp.nonempty
    refine ⟨(p.1 - 1, p.2 - 1), (hmem _).mpr ?_, ?_⟩
    · refine (maximalPiece_append_iff (t := [c]) fun _ => hlast).mp ?_
      rw [List.length_singleton, Nat.add_sub_cancel' (by omega), Nat.add_sub_cancel' (by omega)]
      exact hp
    · refine Prod.ext ?_ ?_
      · exact Nat.add_sub_cancel' (by omega)
      · exact Nat.add_sub_cancel' (by omega)

/-- A piece in front, where a separator follows it or nothing. -/
theorem MaximalPieces.append {t : List α} (hne : t ≠ []) (hfree : ∀ c ∈ t, ¬ sep c) {s : List α}
    (hs : ∀ c, s.head? = some c → sep c) {ts : List (List α)} (h : MaximalPieces sep s ts) :
    MaximalPieces sep (t ++ s) (t :: ts) := by
  obtain ⟨places, hsorted, hmem, rfl⟩ := h
  have hlen : 0 < t.length := List.length_pos_iff.mpr hne
  have hget : ∀ k c, k < t.length → (t ++ s)[k]? = some c → ¬ sep c := by
    intro k c hk hc
    rw [List.getElem?_append_left hk] at hc
    exact hfree c (List.mem_of_getElem? hc)
  -- the pieces behind `t` start later than its end
  have hlate : ∀ {i j}, MaximalPiece sep s i j → i ≠ 0 := by
    rintro i j hp rfl
    have hnonempty := hp.nonempty
    have hinside := hp.inside
    have hzero : s[0]? = some s[0] := List.getElem?_eq_getElem (by omega)
    exact hp.free 0 s[0] (Nat.le_refl 0) hnonempty hzero
      (hs s[0] (by rw [List.head?_eq_getElem?, hzero]))
  have hfirst : MaximalPiece sep (t ++ s) 0 t.length := by
    refine ⟨hlen, by simp, fun k c _ hk hc => hget k c hk hc, fun k c hk => by omega, ?_⟩
    intro c hc
    have hshift := getElem?_length_add t s 0
    rw [Nat.add_zero] at hshift
    rw [hshift, ← List.head?_eq_getElem?] at hc
    exact hs c hc
  refine ⟨(0, t.length) :: places.map fun p => (t.length + p.1, t.length + p.2), ?_, fun p => ?_,
    ?_⟩
  · refine List.pairwise_cons.mpr ⟨fun q hq => ?_, pairwise_shift _ hsorted⟩
    obtain ⟨r, -, rfl⟩ := List.mem_map.mp hq
    show 0 < t.length + r.1
    omega
  · rw [List.mem_cons, List.mem_map]
    constructor
    · rintro (rfl | ⟨q, hq, rfl⟩)
      · exact hfirst
      · have hq := (hmem q).mp hq
        exact (maximalPiece_append_iff fun hzero => absurd hzero (hlate hq)).mpr hq
    · intro hp
      obtain ⟨i, j⟩ := p
      have hnonempty := hp.nonempty
      have hinside := hp.inside
      rw [List.length_append] at hinside
      by_cases hi : i < t.length
      · -- it starts inside `t`, and so it is `t`
        left
        have hi0 : i = 0 := by
          by_contra hpos
          obtain ⟨k, rfl⟩ := Nat.exists_eq_succ_of_ne_zero hpos
          obtain ⟨c, hk⟩ := exists_getElem? (s := t ++ s) (k := k)
            (by rw [List.length_append]; omega)
          exact hget k _ (by omega) hk (hp.left k _ rfl hk)
        have hj : j = t.length := by
          rcases Nat.lt_trichotomy j t.length with hlt | heq | hgt
          · obtain ⟨c, hk⟩ := exists_getElem? (s := t ++ s) (k := j)
              (by rw [List.length_append]; omega)
            exact absurd (hp.right _ hk) (hget j _ hlt hk)
          · exact heq
          · obtain ⟨c, hk⟩ := exists_getElem? (s := t ++ s) (k := t.length)
              (by rw [List.length_append]; omega)
            exact absurd (hfirst.right _ hk) (hp.free t.length _ (by omega) hgt hk)
        rw [hi0, hj]
      · right
        obtain ⟨i, rfl⟩ := Nat.exists_eq_add_of_le (Nat.le_of_not_lt hi)
        obtain ⟨j, rfl⟩ := Nat.exists_eq_add_of_le (show t.length ≤ j by omega)
        refine ⟨(i, j), (hmem _).mpr ?_, rfl⟩
        refine (maximalPiece_append_iff fun hzero c hc => ?_).mp hp
        subst hzero
        rw [List.getLast?_eq_getElem?] at hc
        refine hp.left (t.length - 1) c (by dsimp only; omega) ?_
        rw [List.getElem?_append_left (by omega), hc]
  · rw [List.map_cons, map_shift, List.drop_zero, List.take_left]

end Text
