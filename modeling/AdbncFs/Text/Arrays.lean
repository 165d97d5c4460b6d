import AdbncFs.Text.Str

/-!
# Strings in arrays

`tokenize` and the parsers of the lines of `mount` and `id` copy a string into a local array before
they cut it, and keep the size of the array in an `int`. A string that is too long for the `int`
leaves no array, or one that does not end with a NUL.
-/

namespace Text

/-- A size stored into an `int`. -/
def sizeToInt (n : Nat) : Int := (n : Int).bmod (2 ^ 32)

theorem sizeToInt_of_lt {n : Nat} (h : n < 2 ^ 31) : sizeToInt n = n := by
  unfold sizeToInt
  rw [Int.bmod_eq_of_le] <;> omega

theorem sizeToInt_lt (n : Nat) : sizeToInt n < 2 ^ 31 := by
  unfold sizeToInt
  have := @Int.bmod_lt (n : Int) (2 ^ 32) (by decide)
  omega

/-- `strncpy`: the first `n` bytes of a C string, filled up with NUL bytes. -/
def strncpy (pcSource : Str) (n : Nat) : Str :=
  pcSource.take n ++ List.replicate (n - pcSource.length) '\x00'

/-- An array of size `iLen` with the copy of a C string. There is none of a size that is not
positive. Room for it on the stack, which is a setting of the process, is taken for granted. -/
def copyArray (iLen : Int) (pcSource : Str) : Option Str :=
  if iLen ≤ 0 then none else some (strncpy pcSource iLen.toNat)

/-- The array as the C string that `strtok_r` takes. Without a NUL in it the array is none, and
`strtok_r` is undefined. -/
def copyString (iLen : Int) (pcSource : Str) : Option Str := do
  let acTokens ← copyArray iLen pcSource
  if '\x00' ∈ acTokens then return c_str acTokens else none

theorem not_mem_c_str (s : Str) : '\x00' ∉ c_str s := by
  intro h
  simpa using List.mem_takeWhile_imp h

theorem strncpy_of_lt {s : Str} {n : Nat} (h : s.length < n) :
    ∃ rest, strncpy s n = s ++ '\x00' :: rest := by
  obtain ⟨k, hk⟩ : ∃ k, n - s.length = k + 1 := ⟨n - s.length - 1, by omega⟩
  refine ⟨List.replicate k '\x00', ?_⟩
  rw [strncpy, List.take_of_length_le (by omega), hk, List.replicate_succ]

theorem copyArray_of_lt {iLen : Int} {s : Str} (h : s.length < iLen) :
    ∃ rest, copyArray iLen s = some (s ++ '\x00' :: rest) := by
  obtain ⟨rest, hcopy⟩ := strncpy_of_lt (s := s) (n := iLen.toNat) (by omega)
  exact ⟨rest, by rw [copyArray, if_neg (by omega), hcopy]⟩

theorem not_mem_copyArray {iLen : Int} {s copy : Str} (h : iLen ≤ s.length) (hs : '\x00' ∉ s)
    (hcopy : copyArray iLen s = some copy) : '\x00' ∉ copy := by
  rw [copyArray] at hcopy
  split at hcopy
  · cases hcopy
  · obtain rfl := Option.some.inj hcopy
    rw [strncpy, Nat.sub_eq_zero_of_le (by omega), List.replicate_zero, List.append_nil]
    exact fun hmem => hs (List.mem_of_mem_take hmem)

/-- The copy is the string where the array takes the string and a NUL behind it. -/
theorem copyString_eq (iLen : Int) {s : Str} (hs : '\x00' ∉ s) :
    copyString iLen s = if (s.length : Int) < iLen then some s else none := by
  rw [copyString]
  split
  · obtain ⟨rest, hcopy⟩ := copyArray_of_lt ‹_›
    rw [hcopy, Option.bind_eq_bind, Option.bind_some, if_pos (by simp), c_str_terminated hs]
    rfl
  · rename_i hfits
    cases harray : copyArray iLen s with
    | none => rfl
    | some copy =>
      rw [Option.bind_eq_bind, Option.bind_some]
      exact if_neg (not_mem_copyArray (Int.not_lt.mp hfits) hs harray)

/-- A string and its NUL fit an array of their size exactly when this size is an `int`. -/
theorem lt_sizeToInt_iff (n : Nat) : (n : Int) < sizeToInt (n + 1) ↔ n + 1 < 2 ^ 31 := by
  constructor
  · intro h
    have hlt := sizeToInt_lt (n + 1)
    omega
  · intro h
    rw [sizeToInt_of_lt h]
    omega

/-- `strlen` and the NUL fit in an `int`. -/
def FitsCopy (s : Str) : Prop := (c_str s).length + 1 < 2 ^ 31

instance (s : Str) : Decidable (FitsCopy s) :=
  inferInstanceAs (Decidable ((c_str s).length + 1 < 2 ^ 31))

/-- The array of the parsers, whose size is that of the C string and its NUL. -/
theorem copyString_c_str (s : Str) :
    copyString (sizeToInt ((c_str s).length + 1)) (c_str s) =
      if FitsCopy s then some (c_str s) else none := by
  rw [copyString_eq _ (not_mem_c_str s)]
  exact if_congr (lt_sizeToInt_iff _) rfl rfl

end Text
