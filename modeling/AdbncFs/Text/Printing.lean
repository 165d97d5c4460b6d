import AdbncFs.Text.Number
import AdbncFs.Text.Tokens
import Mathlib.Tactic.IntervalCases

/-!
# Printed numbers

Numbers as `printf` prints them, in base 10 or 16, and the conversions on them: each gives the
number back, also when other text follows that does not go on with a digit.
-/

namespace Text

/-- `%d`: a number with its sign. -/
def printInt (i : Int) : Str :=
  if i < 0 then '-' :: Nat.toDigits 10 i.natAbs else Nat.toDigits 10 i.natAbs

theorem digitValue_digitChar {base d : Nat} (hbase : base ≤ 16) (hd : d < base) :
    digitValue base (Nat.digitChar d) = some d := by
  have hd16 : d < 16 := by omega
  interval_cases d <;> simp [digitValue, Nat.digitChar, hd]

theorem digitChar_plain {d : Nat} (hd : d < 16) :
    isspace (Nat.digitChar d) = false ∧ Nat.digitChar d ≠ '-' ∧ Nat.digitChar d ≠ '+' ∧
      Nat.digitChar d ≠ 'x' ∧ Nat.digitChar d ≠ 'X' := by
  interval_cases d <;> decide

/-- Digits of `base`, with the number that they stand for. -/
def Numeral (base : Nat) (s : Str) (n : Nat) : Prop :=
  ∃ ds : List Nat, s = ds.map Nat.digitChar ∧ ds ≠ [] ∧ (∀ d ∈ ds, d < base) ∧
    ds.foldl (fun n d => n * base + d) 0 = n

/-- The characters of a printed number are the digits with its value. -/
theorem numeral_toDigits {base : Nat} (hbase : 1 < base) (n : Nat) :
    Numeral base (Nat.toDigits base n) n := by
  induction n using Nat.strongRecOn with
  | ind n ih =>
    rw [Nat.toDigits_eq_if hbase]
    split
    · rename_i hlt
      exact ⟨[n], rfl, by simp, by simpa using hlt, by simp⟩
    · rename_i hge
      have hdiv : n / base < n := Nat.div_lt_self (by omega) hbase
      obtain ⟨ds, hds, -, hlt, hfold⟩ := ih _ hdiv
      refine ⟨ds ++ [n % base], by rw [hds]; simp, by simp, ?_, ?_⟩
      · intro d hd
        rcases List.mem_append.mp hd with hd | hd
        · exact hlt d hd
        · rw [List.mem_singleton.mp hd]
          exact Nat.mod_lt _ (by omega)
      · rw [List.foldl_append, hfold, List.foldl_cons, List.foldl_nil, Nat.mul_comm]
        exact Nat.div_add_mod n base

/-- Text that does not go on with a digit. -/
def Ends (base : Nat) (rest : Str) : Prop := ∀ c ∈ rest.head?, digitValue base c = none

theorem ends_nil (base : Nat) : Ends base [] := by simp [Ends]

theorem digits_of_ends {base : Nat} {rest : Str} (h : Ends base rest) : digits base rest = [] := by
  cases rest with
  | nil => rfl
  | cons c rest => rw [digits, h c rfl]

theorem digits_map_digitChar {base : Nat} (hbase : base ≤ 16) {ds : List Nat} {rest : Str}
    (hds : ∀ d ∈ ds, d < base) (hrest : Ends base rest) :
    digits base (ds.map Nat.digitChar ++ rest) = ds := by
  induction ds with
  | nil => exact digits_of_ends hrest
  | cons d ds ih =>
    have hd := digitValue_digitChar hbase (hds d List.mem_cons_self)
    rw [List.map_cons, List.cons_append, digits, hd,
      ih fun e he => hds e (List.mem_cons_of_mem d he)]

theorem skipSign_plain {c : Char} (hminus : c ≠ '-') (hplus : c ≠ '+') (s : Str) :
    skipSign (c :: s) = (false, c :: s) := by
  unfold skipSign
  split <;> simp_all

/-- Without an `x` there is no prefix to skip. -/
theorem skipHexPrefix_plain {s : Str} (h : ∀ c ∈ s, c ≠ 'x' ∧ c ≠ 'X') : skipHexPrefix s = s := by
  unfold skipHexPrefix
  split
  · rename_i x c s
    obtain ⟨hx, hX⟩ := h x (by simp)
    rw [if_neg (by simp [hx, hX])]
  · rfl

theorem skipHexPrefix_digits {ds : List Nat} (hds : ∀ d ∈ ds, d < 16) :
    skipHexPrefix (ds.map Nat.digitChar) = ds.map Nat.digitChar := by
  apply skipHexPrefix_plain
  intro c hc
  obtain ⟨d, hd, rfl⟩ := List.mem_map.mp hc
  exact (digitChar_plain (hds d hd)).2.2.2

/-- The value of a numeral, where the text after it does not go on with a digit. -/
theorem signedDigits_numeral {base : Nat} (hbase : base ≤ 16) {s : Str} {n : Nat}
    (h : Numeral base s n) {rest : Str} (hrest : Ends base rest) (hhex : base = 16 → rest = []) :
    signedDigits base (s ++ rest) = some (false, n) := by
  obtain ⟨ds, rfl, hne, hlt, hfold⟩ := h
  have hlt16 : ∀ d ∈ ds, d < 16 := fun d hd => by
    have := hlt d hd
    omega
  have hdigits : digits base (if base = 16 then skipHexPrefix (ds.map Nat.digitChar ++ rest)
      else ds.map Nat.digitChar ++ rest) = ds := by
    split
    · rename_i h
      have hpre := skipHexPrefix_digits hlt16
      have hmap := digits_map_digitChar hbase hlt (ends_nil base)
      rw [List.append_nil] at hmap
      rw [hhex h, List.append_nil, hpre, hmap]
    · exact digits_map_digitChar hbase hlt hrest
  obtain ⟨d, ds', rfl⟩ := List.exists_cons_of_ne_nil hne
  obtain ⟨hspace, hminus, hplus, -⟩ := digitChar_plain (hlt16 d List.mem_cons_self)
  rw [List.map_cons, List.cons_append] at hdigits ⊢
  rw [signedDigits, List.dropWhile_cons, hspace]
  simp only [Bool.false_eq_true, if_false, skipSign_plain hminus hplus]
  rw [hdigits]
  simp only [hfold]

theorem signedDigits_toDigits {base : Nat} (h1 : 1 < base) (hbase : base ≤ 16) (n : Nat)
    {rest : Str} (hrest : Ends base rest) (hhex : base = 16 → rest = []) :
    signedDigits base (Nat.toDigits base n ++ rest) = some (false, n) :=
  signedDigits_numeral hbase (numeral_toDigits h1 n) hrest hhex

theorem signedDigits_eq_some {s : Str} {negative : Bool} {k : Nat} :
    signedDigits 10 s = some (negative, k) ↔
      ∃ t, skipSign (s.dropWhile isspace) = (negative, t) ∧ digits 10 t ≠ [] ∧
        (digits 10 t).foldl (fun n d => n * 10 + d) 0 = k := by
  rw [signedDigits]
  obtain ⟨negative', t⟩ := skipSign (s.dropWhile isspace)
  simp only [Nat.reduceEqDiff, if_false, Prod.mk.injEq]
  cases hdigits : digits 10 t with
  | nil => simp [hdigits]
  | cons d ds => simp [hdigits]

/-- A sign in front of a numeral. -/
theorem signedDigits_sign {c : Char} {negative : Bool} {numeral rest : Str} {k : Nat}
    (hspace : isspace c = false) (hsign : ∀ s, skipSign (c :: s) = (negative, s))
    (hnumeral : Numeral 10 numeral k) (hrest : Ends 10 rest) :
    signedDigits 10 (c :: (numeral ++ rest)) = some (negative, k) := by
  obtain ⟨ds, rfl, hne, hlt, hfold⟩ := hnumeral
  have hdigits := digits_map_digitChar (by decide) hlt hrest
  refine signedDigits_eq_some.mpr ⟨ds.map Nat.digitChar ++ rest, ?_, ?_, ?_⟩
  · rw [List.dropWhile_cons, hspace]
    exact hsign _
  · rwa [hdigits]
  · rw [hdigits, hfold]

theorem signedDigits_neg (n : Nat) :
    signedDigits 10 ('-' :: Nat.toDigits 10 n) = some (true, n) := by
  have hread := signedDigits_sign (c := '-') (by decide) (fun _ => rfl)
    (numeral_toDigits (by decide : 1 < 10) n) (ends_nil 10)
  rwa [List.append_nil] at hread

/-- `atoi` reads a printed id, also when no digit follows it. -/
theorem atoi_toDigits {n : Nat} (hn : n < 2 ^ 31) {rest : Str} (hrest : Ends 10 rest) :
    atoi (Nat.toDigits 10 n ++ rest) = n := by
  have hread := signedDigits_toDigits (by decide : 1 < 10) (by decide) n hrest (by omega)
  rw [atoi, hread]
  simp only [Bool.false_eq_true, if_false]
  rw [min_eq_left (by omega), max_eq_right (by omega), Int.bmod_eq_of_le (by omega) (by omega)]

theorem stoul_numeral {base n : Nat} {s : Str} (hbase : base ≤ 16) (h : Numeral base s n)
    (hn : n < 2 ^ 64) : stoul s base = .ok n := by
  have hread := signedDigits_numeral hbase h (ends_nil base) fun _ => rfl
  rw [List.append_nil] at hread
  rw [stoul, hread]
  dsimp only
  rw [if_neg (by omega)]
  rfl

theorem stoul_toDigits {base n : Nat} (h1 : 1 < base) (hbase : base ≤ 16) (hn : n < 2 ^ 64) :
    stoul (Nat.toDigits base n) base = .ok n :=
  stoul_numeral hbase (numeral_toDigits h1 n) hn

theorem signedDigits_printInt (i : Int) :
    signedDigits 10 (printInt i) = some (decide (i < 0), i.natAbs) := by
  rw [printInt]
  split
  · rename_i hneg
    rw [signedDigits_neg, decide_eq_true hneg]
  · rename_i hpos
    have hread := signedDigits_toDigits (by decide : 1 < 10) (by decide) i.natAbs
      (ends_nil 10) (by omega)
    rw [List.append_nil] at hread
    rw [hread, decide_eq_false hpos]

theorem stol_printInt {i : Int} (hlow : -2 ^ 63 ≤ i) (hhigh : i < 2 ^ 63) :
    stol (printInt i) = .ok i := by
  have hvalue : (if decide (i < 0) = true then -(i.natAbs : Int) else i.natAbs) = i := by
    by_cases h : i < 0
    · rw [if_pos (decide_eq_true h)]
      omega
    · rw [if_neg (by simpa using h)]
      omega
  rw [stol, stosigned, signedDigits_printInt]
  dsimp only
  rw [hvalue, if_neg (by omega)]
  rfl

/-- A printed signed number read as an unsigned one: the value modulo `2 ^ 64`. -/
theorem stoul_printInt {i : Int} (hlow : -2 ^ 63 ≤ i) (hhigh : i < 2 ^ 63) :
    stoul (printInt i) 10 = .ok (i % 2 ^ 64).toNat := by
  rw [stoul, signedDigits_printInt]
  dsimp only
  rw [if_neg (by omega)]
  by_cases h : i < 0
  · have hwrap : (2 ^ 64 - i.natAbs) % 2 ^ 64 = (i % 2 ^ 64).toNat := by omega
    rw [if_pos (decide_eq_true h), hwrap]
    rfl
  · have hsame : i.natAbs = (i % 2 ^ 64).toNat := by omega
    rw [if_neg (by simpa using h), hsame]
    rfl

/-- A printed number is one token for delimiters that no number holds. -/
theorem clean_toDigits {base : Nat} (h1 : 1 < base) (hbase : base ≤ 16) (n : Nat) {delim : Str}
    (hdelim : ∀ d < 16, Nat.digitChar d ∉ delim) : Clean delim (Nat.toDigits base n) := by
  obtain ⟨ds, hds, hne, hlt, -⟩ := numeral_toDigits h1 n
  rw [hds]
  constructor
  · simpa using hne
  · intro c hc
    obtain ⟨d, hd, rfl⟩ := List.mem_map.mp hc
    have := hlt d hd
    exact hdelim d (by omega)

theorem clean_printInt (i : Int) {delim : Str} (hdelim : ∀ d < 16, Nat.digitChar d ∉ delim)
    (hminus : '-' ∉ delim) : Clean delim (printInt i) := by
  have hclean := clean_toDigits (by decide : 1 < 10) (by decide) i.natAbs hdelim
  rw [printInt]
  split
  · refine ⟨by simp, fun c hc => ?_⟩
    rcases List.mem_cons.mp hc with rfl | hc
    · exact hminus
    · exact hclean.not_mem c hc
  · exact hclean

end Text
