import Mathlib.Algebra.GroupWithZero.Nat
import Mathlib.Algebra.Ring.Int.Defs
import Mathlib.Data.List.Find
import Mathlib.Data.List.Induction
import Mathlib.Data.List.Infix
import Mathlib.Data.List.TakeWhile

/-!
# Byte strings and the string functions of C and C++

A byte string is a list of characters, one for each byte. The functions are those of
`std::string`, `std::getline` and `strtok_r` that read or edit a string in place; each
comes with the fact that says what it finds or what it leaves.
-/

namespace Text

/-- A string of bytes, one character for each byte. -/
abbrev Str := List Char

/-! ## `std::string` -/

/-- `s.find(pat, pos)`: the first position from `pos` on at which `pat` occurs. -/
def find (s pat : Str) (pos : Nat) : Option Nat :=
  (List.range' pos (s.length + 1 - pos)).find? fun i => pat.isPrefixOf (s.drop i)

theorem find_eq_some {s pat : Str} {pos i : Nat} :
    find s pat pos = some i ↔ (pos ≤ i ∧ i ≤ s.length ∧ pat <+: s.drop i) ∧
      ∀ j, pos ≤ j → j < i → ¬ pat <+: s.drop j := by
  simp only [find, List.find?_range'_eq_some, List.isPrefixOf_iff_prefix, List.mem_range'_1,
    Bool.not_eq_true', ← Bool.not_eq_true]
  constructor
  · rintro ⟨hp, ⟨h1, h2⟩, hmin⟩
    exact ⟨⟨h1, by omega, hp⟩, hmin⟩
  · rintro ⟨⟨h1, h2, hp⟩, hmin⟩
    exact ⟨hp, ⟨h1, by omega⟩, hmin⟩

theorem find_eq_none {s pat : Str} {pos : Nat} :
    find s pat pos = none ↔ ∀ i, pos ≤ i → i ≤ s.length → ¬ pat <+: s.drop i := by
  simp only [find, List.find?_range'_eq_none, List.isPrefixOf_iff_prefix, Bool.not_eq_true',
    ← Bool.not_eq_true]
  constructor
  · exact fun h i h1 h2 => h i h1 (by omega)
  · exact fun h i h1 h2 => h i h1 (by omega)

/-- An occurrence ends inside the string. -/
theorem find_end {s pat : Str} {pos i : Nat} (h : find s pat pos = some i) :
    i + pat.length ≤ s.length := by
  obtain ⟨⟨-, hi, hp⟩, -⟩ := find_eq_some.mp h
  have := hp.length_le
  rw [List.length_drop] at this
  omega

/-- `s.find(pat) != npos` says that `pat` occurs in `s`. -/
theorem find_zero_ne_none {s pat : Str} : find s pat 0 ≠ none ↔ pat <:+: s := by
  rw [Ne, find_eq_none]
  constructor
  · intro h
    by_contra hc
    refine h fun i _ _ hp => hc ?_
    exact hp.isInfix.trans (List.drop_suffix i s).isInfix
  · rintro ⟨a, b, rfl⟩ h
    refine h a.length (Nat.zero_le _) (by simp) ?_
    rw [List.append_assoc, List.drop_left]
    exact List.prefix_append pat b

/-- `s.replace(j, n, r)`. -/
def replace (s : Str) (j n : Nat) (r : Str) : Str := s.take j ++ r ++ s.drop (j + n)

theorem length_replace {s r : Str} {j n : Nat} (h : j + n ≤ s.length) :
    (replace s j n r).length + n = s.length + r.length := by
  simp only [replace, List.length_append, List.length_take, List.length_drop]
  omega

/-- `s.rfind(c)`: the last position of `c`. -/
def rfind (s : Str) (c : Char) : Option Nat :=
  (List.range s.length).reverse.find? fun i => s[i]? = some c

theorem rfind_concat (s : Str) (x c : Char) :
    rfind (s ++ [x]) c = if x = c then some s.length else rfind s c := by
  have hrest : ∀ i ∈ (List.range s.length).reverse, (s ++ [x])[i]? = s[i]? := by
    intro i hi
    rw [List.mem_reverse, List.mem_range] at hi
    exact List.getElem?_append_left hi
  rw [rfind, List.length_append, List.length_singleton, List.range_succ, List.reverse_append,
    List.reverse_singleton, List.singleton_append, List.find?_cons]
  split
  · rename_i h
    simp at h
    rw [if_pos h]
  · rename_i h
    simp at h
    rw [if_neg h, rfind]
    exact List.find?_congr (fun i hi => by rw [hrest i hi])

theorem rfind_of_not_mem {s : Str} {c : Char} (h : c ∉ s) : rfind s c = none := by
  rw [rfind, List.find?_eq_none]
  intro i _ hi
  exact h (List.mem_of_getElem? (by simpa using hi))

/-- The last `c` stands before a rest without `c`. -/
theorem rfind_append (s : Str) {c : Char} {rest : Str} (h : c ∉ rest) :
    rfind (s ++ c :: rest) c = some s.length := by
  induction rest using List.reverseRecOn with
  | nil => rw [rfind_concat, if_pos rfl]
  | append_singleton rest x ih =>
    rw [← List.cons_append, ← List.append_assoc, rfind_concat, if_neg, ih]
    · exact fun hc => h (List.mem_append_left _ hc)
    · rintro rfl
      exact h (by simp)

/-- What a C function reads of a string: the text before the first NUL. -/
def c_str (s : Str) : Str := s.takeWhile (· ≠ '\x00')

/-- A text is read up to the NUL that terminates it. -/
theorem c_str_terminated {s : Str} (h : '\x00' ∉ s) (rest : Str) :
    c_str (s ++ '\x00' :: rest) = s := by
  rw [c_str, List.takeWhile_append_of_pos, List.takeWhile_cons_of_neg (by decide), List.append_nil]
  intro c hc
  have hne : c ≠ '\x00' := fun he => h (he ▸ hc)
  exact decide_eq_true hne

theorem c_str_of_not_mem {s : Str} (h : '\x00' ∉ s) : c_str s = s := by
  rw [c_str, List.takeWhile_eq_self_iff]
  intro c hc
  have hne : c ≠ '\x00' := fun he => h (he ▸ hc)
  exact decide_eq_true hne

/-! ## Lines -/

/-- `getline`: the text before the first line feed and the text after it; `none` when
the stream ends before a line feed comes. -/
def getline : Str → Option (Str × Str)
  | [] => none
  | c :: s => if c = '\n' then some ([], s) else (getline s).map fun p => (c :: p.1, p.2)

theorem getline_eq_some {s line rest : Str} :
    getline s = some (line, rest) ↔ s = line ++ '\n' :: rest ∧ '\n' ∉ line := by
  induction s generalizing line with
  | nil => simp [getline]
  | cons c s ih =>
    unfold getline
    by_cases hc : c = '\n'
    · subst hc
      cases line with
      | nil => simp [eq_comm]
      | cons d line =>
        simp only [if_true, Option.some.injEq, Prod.mk.injEq, List.cons_append, List.cons.injEq,
          List.mem_cons, not_or]
        constructor
        · rintro ⟨h, -⟩
          cases h
        · rintro ⟨⟨h, -⟩, h', -⟩
          exact absurd h h'
    · simp only [hc, if_false, Option.map_eq_some_iff, Prod.exists, Prod.mk.injEq]
      constructor
      · rintro ⟨l, r, hg, rfl, rfl⟩
        obtain ⟨rfl, hl⟩ := ih.mp hg
        exact ⟨rfl, by simp [hl, Ne.symm hc]⟩
      · rintro ⟨hs, hl⟩
        cases line with
        | nil => exact absurd (List.cons.inj hs).1 hc
        | cons d line =>
          obtain ⟨rfl, hs'⟩ := List.cons.inj hs
          exact ⟨line, rest, ih.mpr ⟨hs', fun h => hl (List.mem_cons_of_mem _ h)⟩, rfl, rfl⟩

theorem getline_append {line rest : Str} (h : '\n' ∉ line) :
    getline (line ++ '\n' :: rest) = some (line, rest) :=
  getline_eq_some.mpr ⟨rfl, h⟩

theorem getline_length {s line rest : Str} (h : getline s = some (line, rest)) :
    rest.length < s.length := by
  rw [(getline_eq_some.mp h).1, List.length_append, List.length_cons]
  omega

theorem getline_eq_none {s : Str} : getline s = none ↔ '\n' ∉ s := by
  induction s with
  | nil => simp [getline]
  | cons c s ih =>
    unfold getline
    by_cases hc : c = '\n'
    · simp [hc]
    · simp [hc, ih, Ne.symm hc]

/-- A prefix without `x` ends before the first `x`. -/
theorem prefix_of_prefix_append_cons {pat l r : Str} {x : Char} (hx : x ∉ pat)
    (h : pat <+: l ++ x :: r) : pat <+: l := by
  refine List.prefix_of_prefix_length_le h (List.prefix_append l _) ?_
  by_contra hlen
  have hlt : l.length < pat.length := by omega
  have hget : pat[l.length] = x := by
    rw [h.getElem hlt]
    simp
  exact hx (hget ▸ List.getElem_mem hlt)

/-- A pattern without `x` lies on one side of an `x`. -/
theorem infix_append_cons_iff {pat l r : Str} {x : Char} (hx : x ∉ pat) (hne : pat ≠ []) :
    pat <:+: l ++ x :: r ↔ pat <:+: l ∨ pat <:+: r := by
  constructor
  · intro h
    induction l with
    | nil =>
      rw [List.nil_append, List.infix_cons_iff] at h
      rcases h with h | h
      · have := prefix_of_prefix_append_cons (l := []) hx h
        exact absurd (List.prefix_nil.mp this) hne
      · exact Or.inr h
    | cons c l ih =>
      rw [List.cons_append, List.infix_cons_iff] at h
      rcases h with h | h
      · exact Or.inl (prefix_of_prefix_append_cons (l := c :: l) hx h).isInfix
      · rcases ih h with h | h
        · exact Or.inl (List.infix_cons h)
        · exact Or.inr h
  · rintro (h | h)
    · exact List.infix_append_of_infix_left h
    · exact List.infix_append_of_infix_right (List.infix_cons h)

/-- The text of the lines `ls`, each ended by a line feed. -/
def unlines : List Str → Str
  | [] => []
  | l :: ls => l ++ '\n' :: unlines ls

theorem unlines_append (ls ms : List Str) : unlines (ls ++ ms) = unlines ls ++ unlines ms := by
  induction ls with
  | nil => rfl
  | cons l ls ih => simp [unlines, ih]

/-- A character of a line is a character of the text. -/
theorem mem_unlines {c : Char} {l : Str} {ls : List Str} (hl : l ∈ ls) (hc : c ∈ l) :
    c ∈ unlines ls := by
  obtain ⟨pre, post, rfl⟩ := List.append_of_mem hl
  rw [unlines_append, unlines]
  simp [hc]

/-- There is one line feed for each line. -/
theorem count_unlines_append {ls : List Str} {t : Str} (hls : ∀ l ∈ ls, '\n' ∉ l)
    (ht : '\n' ∉ t) : (unlines ls ++ t).count '\n' = ls.length := by
  induction ls with
  | nil => exact List.count_eq_zero.mpr ht
  | cons l ls ih =>
    have hl : l.count '\n' = 0 := List.count_eq_zero.mpr (hls l List.mem_cons_self)
    rw [unlines, List.append_assoc, List.cons_append, List.count_append, hl, List.count_cons_self,
      ih fun m hm => hls m (List.mem_cons_of_mem l hm), List.length_cons]
    omega

/-- Every text is some ended lines and a rest without line feed. -/
theorem exists_unlines (s : Str) :
    ∃ ls t, s = unlines ls ++ t ∧ (∀ l ∈ ls, '\n' ∉ l) ∧ '\n' ∉ t := by
  generalize hn : s.length = n
  induction n using Nat.strongRecOn generalizing s with
  | ind n ih =>
    cases hg : getline s with
    | none => exact ⟨[], s, rfl, by simp, getline_eq_none.mp hg⟩
    | some p =>
      obtain ⟨line, rest⟩ := p
      obtain ⟨ls, t, rfl, hls, ht⟩ := ih _ (hn ▸ getline_length hg) rest rfl
      obtain ⟨rfl, hline⟩ := getline_eq_some.mp hg
      refine ⟨line :: ls, t, by simp [unlines], ?_, ht⟩
      intro l hl
      rcases List.mem_cons.mp hl with rfl | hl
      · exact hline
      · exact hls l hl

/-- A pattern without line feed that occurs in a text occurs in one of its lines. -/
theorem infix_unlines_iff {pat : Str} (hpat : '\n' ∉ pat) (hne : pat ≠ []) {ls : List Str}
    {t : Str} : pat <:+: unlines ls ++ t ↔ (∃ l ∈ ls, pat <:+: l) ∨ pat <:+: t := by
  induction ls with
  | nil => simp [unlines]
  | cons l ls ih =>
    rw [unlines, List.append_assoc, List.cons_append, infix_append_cons_iff hpat hne, ih]
    simp only [List.mem_cons, exists_eq_or_imp, or_assoc]

/-- A text of ended lines ends with a line feed. -/
theorem unlines_append_ended_iff (ls : List Str) {t : Str} (ht : '\n' ∉ t) :
    (unlines ls ++ t = [] ∨ (unlines ls ++ t).getLast? = some '\n') ↔ t = [] := by
  constructor
  · intro h
    by_contra hne
    rcases h with h | h
    · exact hne (List.append_eq_nil_iff.mp h).2
    · rw [List.getLast?_append_of_ne_nil _ hne] at h
      exact ht (List.mem_of_getLast? h)
  · rintro rfl
    rw [List.append_nil]
    induction ls with
    | nil => exact Or.inl rfl
    | cons l ls ih =>
      refine Or.inr ?_
      rw [unlines, List.getLast?_append_of_ne_nil _ (by simp)]
      rcases ih with h | h
      · rw [h]
        rfl
      · rw [List.getLast?_cons, h]
        rfl

/-- The lines of a text; a last line need not be ended by a line feed. -/
def lines (s : Str) : List Str :=
  match _h : getline s with
  | none => if s = [] then [] else [s]
  | some p => p.1 :: lines p.2
termination_by s.length
decreasing_by exact getline_length _h

theorem lines_nil : lines [] = [] := by
  rw [lines]
  rfl

theorem lines_cons {line : Str} (rest : Str) (h : '\n' ∉ line) :
    lines (line ++ '\n' :: rest) = line :: lines rest := by
  rw [lines]
  split
  · rename_i hn
    rw [getline_append h] at hn
    cases hn
  · rename_i p hp
    rw [getline_append h] at hp
    cases hp
    rfl

theorem lines_unended {s : Str} (hs : s ≠ []) (h : '\n' ∉ s) : lines s = [s] := by
  rw [lines]
  split
  · rw [if_neg hs]
  · rename_i p hp
    rw [getline_eq_none.mpr h] at hp
    cases hp

theorem lines_unlines_append {ls : List Str} {t : Str} (hls : ∀ l ∈ ls, '\n' ∉ l)
    (ht : '\n' ∉ t) : lines (unlines ls ++ t) = ls ++ if t = [] then [] else [t] := by
  induction ls with
  | nil =>
    by_cases h : t = []
    · simp [h, unlines, lines_nil]
    · simp [h, unlines, lines_unended h ht]
  | cons l ls ih =>
    rw [unlines, List.append_assoc, List.cons_append, lines_cons _ (hls l List.mem_cons_self),
      ih fun m hm => hls m (List.mem_cons_of_mem _ hm)]
    rfl

/-! ## `strtok_r` -/

/-- `strtok_r`, with the text at the save pointer as its argument: the next token and
the text at the new save pointer. -/
def strtok_r (delim s : Str) : Option (Str × Str) :=
  let s := s.dropWhile (· ∈ delim)
  if s = [] then none
  else some (s.takeWhile (· ∉ delim), (s.dropWhile (· ∉ delim)).tail)

theorem length_dropWhile_le (p : Char → Bool) (s : Str) : (s.dropWhile p).length ≤ s.length :=
  (List.dropWhile_suffix p).length_le

theorem strtok_r_length {delim s token rest : Str} (h : strtok_r delim s = some (token, rest)) :
    rest.length < s.length := by
  unfold strtok_r at h
  generalize ht : s.dropWhile (fun c => decide (c ∈ delim)) = t at h
  have hle : t.length ≤ s.length := ht ▸ length_dropWhile_le _ s
  dsimp only at h
  split at h
  · cases h
  · rename_i hne
    cases h
    have h1 := length_dropWhile_le (fun c => decide (c ∉ delim)) t
    have h2 : 0 < t.length := List.length_pos_iff.mpr hne
    rw [List.length_tail]
    omega

/-- The tokens that repeated calls of `strtok_r` with the same delimiters give. -/
def strtokAll (delim s : Str) : List Str :=
  match _h : strtok_r delim s with
  | none => []
  | some p => p.1 :: strtokAll delim p.2
termination_by s.length
decreasing_by exact strtok_r_length _h

end Text
