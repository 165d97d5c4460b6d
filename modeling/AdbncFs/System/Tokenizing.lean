import AdbncFs.System.Attributes
import AdbncFs.Text.Tokens

/-!
# The array of tokenize

`tokenize` copies its string into an array and keeps the size of the array in an `int`. As long as
the size fits there the tokens are the pieces between blanks and tabs (`tokenize_exact_iff`); a
longer string leaves no array, or one without the NUL at which `strtok_r` ends.
-/

namespace AdbncFs

open Text

/-! ## The source -/

def acTokens (strData : Str) : Option Str :=
  copyArray (sizeToInt (strData.length + 1)) (c_str strData)

/-- `tokenize`, or `none` where its behaviour is undefined: there is no array, or it has no NUL
and `strtok_r` reads on behind it. -/
def tokenizeArray (strData : Str) : Option (List Str) := do
  let acTokens ← acTokens strData
  if '\x00' ∈ acTokens then return strtokAll " \t".toList (c_str acTokens) else none

/-! ## Which strings fit -/

/-- The array takes the string up to its first NUL, and a NUL behind it. -/
def FitsArray (strData : Str) : Prop :=
  ((c_str strData).length : Int) < sizeToInt (strData.length + 1)

instance (strData : Str) : Decidable (FitsArray strData) :=
  inferInstanceAs (Decidable (((c_str strData).length : Int) < sizeToInt (strData.length + 1)))

/-- The tokens are those of the copy. -/
theorem tokenizeArray_eq_map (strData : Str) :
    tokenizeArray strData =
      (copyString (sizeToInt (strData.length + 1)) (c_str strData)).map
        (strtokAll " \t".toList) := by
  rw [tokenizeArray, acTokens, copyString]
  cases copyArray (sizeToInt (strData.length + 1)) (c_str strData) with
  | none => rfl
  | some copy =>
    rw [Option.bind_eq_bind, Option.bind_some, Option.bind_eq_bind, Option.bind_some]
    split <;> rfl

/-- A string that fits has the tokens of `tokenize`. -/
theorem tokenizeArray_of_fits {strData : Str} (h : FitsArray strData) :
    tokenizeArray strData = some (tokenize strData) := by
  rw [FitsArray] at h
  rw [tokenizeArray_eq_map, copyString_eq _ (not_mem_c_str strData), if_pos h]
  rfl

theorem tokenizeArray_of_not_fits {strData : Str} (h : ¬ FitsArray strData) :
    tokenizeArray strData = none := by
  rw [FitsArray] at h
  rw [tokenizeArray_eq_map, copyString_eq _ (not_mem_c_str strData), if_neg h]
  rfl

/-- A string without NUL fits exactly when its length and the NUL do in an `int`. -/
theorem fitsArray_iff {strData : Str} (h : '\x00' ∉ strData) :
    FitsArray strData ↔ strData.length + 1 < 2 ^ 31 := by
  rw [FitsArray, c_str_of_not_mem h]
  exact lt_sizeToInt_iff strData.length

/-! ## The tokens -/

/-- `tokenize` gives the maximal pieces without blanks and tabs in order, and so the words of
every text that has words with blanks and tabs between them. -/
def TokenizesExactly (strData : Str) : Prop :=
  (∀ tokens, tokenizeArray strData = some tokens ↔
    MaximalPieces (· ∈ " \t".toList) strData tokens) ∧
  ∀ before words, Spaced " \t".toList before words → strData = spread before words →
    tokenizeArray strData = some (words.map Prod.fst)

theorem not_tokenizesExactly {strData : Str} (h : ¬ FitsArray strData) :
    ¬ TokenizesExactly strData := by
  rintro ⟨hpieces, -⟩
  have htokens := (hpieces _).mpr (strtokAll_maximalPieces strData)
  rw [tokenizeArray_of_not_fits h] at htokens
  cases htokens

/-- Of a string without NUL the tokens are the pieces exactly when its length and the NUL fit in
an `int`. -/
theorem tokenize_exact_iff {strData : Str} (h : '\x00' ∉ strData) :
    TokenizesExactly strData ↔ strData.length + 1 < 2 ^ 31 := by
  rw [← fitsArray_iff h]
  constructor
  · intro hexact
    by_contra hfits
    exact not_tokenizesExactly hfits hexact
  · intro hfits
    have htokens : tokenizeArray strData = some (strtokAll " \t".toList strData) := by
      rw [tokenizeArray_of_fits hfits, tokenize, c_str_of_not_mem h]
    refine ⟨fun tokens => ?_, ?_⟩
    · rw [htokens, Option.some.injEq]
      constructor
      · rintro rfl
        exact strtokAll_maximalPieces strData
      · exact (strtokAll_maximalPieces strData).unique
    · rintro before words hspaced rfl
      rw [htokens, strtokAll_spread hspaced]

theorem tokenize_exact_threeTokens : TokenizesExactly " \tabc def\tghi  ".toList :=
  (tokenize_exact_iff (by decide)).mpr (by decide)

/-- The size of the array for `2 ^ 31 - 1` bytes is negative as an `int`. -/
theorem tokenize_without_array :
    acTokens (List.replicate (2 ^ 31 - 1) 'a') = none ∧
      ¬ TokenizesExactly (List.replicate (2 ^ 31 - 1) 'a') := by
  have hsize : sizeToInt ((List.replicate (2 ^ 31 - 1) 'a').length + 1) = -2 ^ 31 := by
    rw [List.length_replicate]
    decide
  have harray : acTokens (List.replicate (2 ^ 31 - 1) 'a') = none := by
    rw [acTokens, hsize]
    exact if_pos (by decide)
  refine ⟨harray, not_tokenizesExactly ?_⟩
  rw [FitsArray, hsize]
  omega

end AdbncFs
