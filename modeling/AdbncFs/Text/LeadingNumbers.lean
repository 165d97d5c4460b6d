import AdbncFs.Text.Printing

/-!
# Numbers at the front of a text

Which texts `stoi` reads: white space, at most one sign and digits, whatever stands behind the
last digit, with a value that fits in 32 bits.
-/

namespace Text

/-- A digit in base 10 is one of the characters `0` to `9`. -/
theorem digitChar_of_digitValue {c : Char} {d : Nat} (h : digitValue 10 c = some d) :
    d < 10 ∧ c = Nat.digitChar d := by
  obtain ⟨hvalue, hlt⟩ := Option.filter_eq_some_iff.mp h
  rw [decide_eq_true_eq] at hlt
  refine ⟨hlt, ?_⟩
  split at hvalue
  · rename_i hdigit
    obtain rfl := Option.some.inj hvalue
    have hlow : '0'.toNat ≤ c.toNat := hdigit.1
    have hzero : '0'.toNat = 48 := rfl
    apply Char.toNat_inj.mp
    rw [Nat.toNat_digitChar_of_lt_ten hlt]
    omega
  · -- the letters are digits of larger bases only
    split at hvalue
    · obtain rfl := Option.some.inj hvalue
      omega
    · split at hvalue
      · obtain rfl := Option.some.inj hvalue
        omega
      · cases hvalue

/-- The digits at the front, and what stands behind them. -/
theorem exists_digits (s : Str) :
    ∃ rest, s = (digits 10 s).map Nat.digitChar ++ rest ∧ (∀ d ∈ digits 10 s, d < 10) ∧
      Ends 10 rest := by
  induction s with
  | nil => exact ⟨[], rfl, by simp [digits], ends_nil 10⟩
  | cons c s ih =>
    obtain ⟨rest, hs, hlt, hrest⟩ := ih
    rw [digits]
    cases hc : digitValue 10 c with
    | none =>
      refine ⟨c :: s, rfl, by simp, ?_⟩
      intro d hd
      cases hd
      exact hc
    | some d =>
      obtain ⟨hd, rfl⟩ := digitChar_of_digitValue hc
      refine ⟨rest, ?_, ?_, hrest⟩
      · dsimp only
        rw [List.map_cons, List.cons_append, ← hs]
      · intro e he
        rcases List.mem_cons.mp he with rfl | he
        · exact hd
        · exact hlt e he

/-- White space, at most one sign, and digits that go on as far as they can. -/
def LeadingNumber (s : Str) (n : Int) : Prop :=
  ∃ blanks numeral rest k, (∀ c ∈ blanks, isspace c = true) ∧ Numeral 10 numeral k ∧
    Ends 10 rest ∧
    (s = blanks ++ (numeral ++ rest) ∧ n = k ∨ s = blanks ++ '+' :: (numeral ++ rest) ∧ n = k ∨
      s = blanks ++ '-' :: (numeral ++ rest) ∧ n = -k)

theorem signedDigits_blanks {blanks : Str} (h : ∀ c ∈ blanks, isspace c = true) (s : Str) :
    signedDigits 10 (blanks ++ s) = signedDigits 10 s := by
  rw [signedDigits, List.dropWhile_append_of_pos h]
  rfl

theorem skipSign_cases {s t : Str} {negative : Bool} (h : skipSign s = (negative, t)) :
    negative = true ∧ s = '-' :: t ∨ negative = false ∧ (s = '+' :: t ∨ s = t) := by
  unfold skipSign at h
  split at h
  · cases h
    exact Or.inl ⟨rfl, rfl⟩
  · cases h
    exact Or.inr ⟨rfl, Or.inl rfl⟩
  · cases h
    exact Or.inr ⟨rfl, Or.inr rfl⟩

theorem leadingNumber_iff {s : Str} {n : Int} :
    LeadingNumber s n ↔ ∃ negative k, signedDigits 10 s = some (negative, k) ∧
      n = if negative = true then -(k : Int) else k := by
  constructor
  · rintro ⟨blanks, numeral, rest, k, hblanks, hnumeral, hrest,
      ⟨rfl, rfl⟩ | ⟨rfl, rfl⟩ | ⟨rfl, rfl⟩⟩
    · refine ⟨false, k, ?_, rfl⟩
      rw [signedDigits_blanks hblanks]
      exact signedDigits_numeral (by decide) hnumeral hrest (by omega)
    · refine ⟨false, k, ?_, rfl⟩
      rw [signedDigits_blanks hblanks]
      exact signedDigits_sign (by decide) (fun _ => rfl) hnumeral hrest
    · refine ⟨true, k, ?_, rfl⟩
      rw [signedDigits_blanks hblanks]
      exact signedDigits_sign (by decide) (fun _ => rfl) hnumeral hrest
  · rintro ⟨negative, k, hread, rfl⟩
    obtain ⟨t, hsign, hne, rfl⟩ := signedDigits_eq_some.mp hread
    obtain ⟨rest, ht, hlt, hrest⟩ := exists_digits t
    have hs : s = s.takeWhile isspace ++ s.dropWhile isspace :=
      (List.takeWhile_append_dropWhile).symm
    refine ⟨s.takeWhile isspace, (digits 10 t).map Nat.digitChar, rest, _,
      fun c hc => List.mem_takeWhile_imp hc, ⟨digits 10 t, rfl, hne, hlt, rfl⟩, hrest, ?_⟩
    rw [← ht]
    rcases skipSign_cases hsign with ⟨rfl, hdrop⟩ | ⟨rfl, hdrop | hdrop⟩
    · exact Or.inr (Or.inr ⟨by rw [← hdrop, ← hs], rfl⟩)
    · exact Or.inr (Or.inl ⟨by rw [← hdrop, ← hs], rfl⟩)
    · exact Or.inl ⟨by rw [← hdrop, ← hs], rfl⟩

/-- `stoi` reads a leading number that fits, and throws on every other text. -/
theorem stoi_eq_ok_iff {s : Str} {n : Int} :
    stoi s = .ok n ↔ LeadingNumber s n ∧ -2 ^ 31 ≤ n ∧ n < 2 ^ 31 := by
  rw [stoi, stosigned, leadingNumber_iff]
  cases hread : signedDigits 10 s with
  | none => simp [throw, throwThe, MonadExceptOf.throw]
  | some r =>
    obtain ⟨negative, k⟩ := r
    have hvalue : (∃ negative' k', some (negative, k) = some (negative', k') ∧
        n = if negative' = true then -(k' : Int) else k') ↔
        n = if negative = true then -(k : Int) else k := by
      constructor
      · rintro ⟨_, _, hsame, hn⟩
        cases hsame
        exact hn
      · exact fun hn => ⟨negative, k, rfl, hn⟩
    rw [hvalue]
    dsimp only
    generalize (if negative = true then -(k : Int) else k) = value
    split
    · rename_i hout
      constructor
      · intro h
        cases h
      · rintro ⟨rfl, hlow, hhigh⟩
        omega
    · rename_i hin
      constructor
      · intro h
        cases h
        exact ⟨rfl, by omega, by omega⟩
      · rintro ⟨rfl, -⟩
        rfl

end Text
