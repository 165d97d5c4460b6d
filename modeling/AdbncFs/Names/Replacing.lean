import Mathlib.Logic.Relation
import AdbncFs.Names.Paths

/-!
# The loop of stringReplacer

`stringReplacer` edits the string while it searches it, and keeps the length of the pattern in an
`int`. A pattern whose length fits there is replaced at its leftmost occurrences that do not
overlap, and neither they nor what was put in is searched again. A longer pattern that occurs takes
the rest of the string with it, or leaves a part of itself (`stringReplacer_leftmost_iff`).
-/

namespace AdbncFs

open Text

/-! ## The source -/

/-- The string and the position of the search. -/
structure Replacing where
  strSource : Str
  j : Nat

/-- `strSource.replace(j, iLen, strReplace)`. As a `size_t` a negative length is beyond the end of
every string. -/
def replaceInt (strSource : Str) (j : Nat) (iLen : Int) (strReplace : Str) : Str :=
  replace strSource j (if iLen < 0 then strSource.length else iLen.toNat) strReplace

/-- One turn of the loop; `none` where the loop ends. -/
def stringReplacer.turn (strFind strReplace : Str) (r : Replacing) : Option Replacing :=
  (find r.strSource strFind r.j).map fun j =>
    ⟨replaceInt r.strSource j (sizeToInt strFind.length) strReplace, j + strReplace.length⟩

namespace stringReplacer

/-- Any number of turns. -/
def Turns (strFind strReplace : Str) : Replacing → Replacing → Prop :=
  Relation.ReflTransGen fun r r' => turn strFind strReplace r = some r'

/-- After some turns the loop ends, and leaves this string. -/
def Leaves (strFind strReplace strSource strResult : Str) : Prop :=
  ∃ r, Turns strFind strReplace ⟨strSource, 0⟩ r ∧ turn strFind strReplace r = none ∧
    r.strSource = strResult

theorem leaves_unique {strFind strReplace strSource s t : Str}
    (hs : Leaves strFind strReplace strSource s) (ht : Leaves strFind strReplace strSource t) :
    s = t := by
  obtain ⟨r, hr, hrend, rfl⟩ := hs
  obtain ⟨q, hq, hqend, rfl⟩ := ht
  have hone : Relator.RightUnique fun r r' : Replacing => turn strFind strReplace r = some r' :=
    fun _ _ _ h h' => Option.some.inj (h.symm.trans h')
  have hend : ∀ {r q : Replacing}, Turns strFind strReplace r q →
      turn strFind strReplace r = none → r = q := by
    intro r q hturns hnone
    rcases hturns.cases_head with hsame | ⟨mid, hturn, -⟩
    · exact hsame
    · rw [hnone] at hturn
      cases hturn
  rcases Relation.ReflTransGen.total_of_right_unique hone hr hq with hrq | hqr
  · rw [hend hrq hrend]
  · rw [hend hqr hqend]

/-! ## One turn -/

section

variable {strFind strReplace : Str}

theorem turn_eq_none {r : Replacing} :
    turn strFind strReplace r = none ↔ find r.strSource strFind r.j = none := by
  rw [turn, Option.map_eq_none_iff]

/-- What a turn leaves of the occurrence and the text behind it. -/
def leftBehind (strFind rest : Str) : Str :=
  if sizeToInt strFind.length < 0 then []
  else (strFind ++ rest).drop (sizeToInt strFind.length).toNat

variable (strReplace) in
/-- The text in front of the search position is finished, and so is what the turn puts in. -/
theorem turn_behind (done : Str) {a rest : Str}
    (hleft : ∀ j < a.length, ¬ strFind <+: (a ++ (strFind ++ rest)).drop j) :
    turn strFind strReplace ⟨done ++ (a ++ (strFind ++ rest)), done.length⟩ =
      some ⟨done ++ (a ++ strReplace) ++ leftBehind strFind rest,
        (done ++ (a ++ strReplace)).length⟩ := by
  have htake : (done ++ (a ++ (strFind ++ rest))).take (done.length + a.length) = done ++ a := by
    rw [List.take_length_add_append, List.take_left]
  have hdrop : ∀ n, (done ++ (a ++ (strFind ++ rest))).drop (done.length + a.length + n) =
      (strFind ++ rest).drop n := by
    intro n
    rw [Nat.add_assoc, List.drop_length_add_append, List.drop_length_add_append]
  have hall : ∀ n, (done ++ (a ++ (strFind ++ rest))).drop
      (n + (done ++ (a ++ (strFind ++ rest))).length) = [] :=
    fun n => List.drop_eq_nil_of_le (Nat.le_add_left _ n)
  have hposition : done.length + a.length + strReplace.length =
      (done ++ (a ++ strReplace)).length := by
    simp only [List.length_append, Nat.add_assoc]
  rw [turn, find_behind done hleft, Option.map_some, hposition, leftBehind, replaceInt, replace,
    htake]
  by_cases hneg : sizeToInt strFind.length < 0
  · rw [if_pos hneg, if_pos hneg, hall]
    simp only [List.append_assoc]
  · rw [if_neg hneg, if_neg hneg, hdrop]
    simp only [List.append_assoc]

theorem leftBehind_of_lt (hlt : strFind.length < 2 ^ 31) (rest : Str) :
    leftBehind strFind rest = rest := by
  rw [leftBehind, sizeToInt_of_lt hlt, if_neg (by omega), Int.toNat_natCast, List.drop_left]

end

/-! ## Patterns whose length fits -/

section

variable {strFind strReplace : Str}

/-- The text in front of the search position is finished; the pieces of the rest are joined. -/
theorem turns_of_cut (hlt : strFind.length < 2 ^ 31) {rest : Str} {pieces : List Str}
    (hcut : Cut strFind rest pieces) (done : Str) :
    ∃ r, Turns strFind strReplace ⟨done ++ rest, done.length⟩ r ∧
      turn strFind strReplace r = none ∧ r.strSource = done ++ strReplace.intercalate pieces := by
  induction hcut generalizing done with
  | last hnone =>
    refine ⟨_, Relation.ReflTransGen.refl, turn_eq_none.mpr (find_behind_none done hnone), ?_⟩
    rw [List.intercalate_singleton]
  | @next a s ps hleft hrest ih =>
    have hturn := turn_behind strReplace done hleft
    rw [leftBehind_of_lt hlt] at hturn
    obtain ⟨r, hturns, hend, hresult⟩ := ih (done ++ (a ++ strReplace))
    refine ⟨r, Relation.ReflTransGen.head hturn hturns, hend, ?_⟩
    rw [hresult, List.intercalate_cons_of_ne_nil hrest.ne_nil]
    simp only [List.append_assoc]

variable (strReplace) in
/-- The turns leave what the loop on strings leaves. -/
theorem leaves_stringReplacer (hlt : strFind.length < 2 ^ 31) (hFind : strFind ≠ [])
    (strSource : Str) :
    Leaves strFind strReplace strSource (stringReplacer strSource strFind strReplace hFind) := by
  obtain ⟨pieces, hcut⟩ := exists_cut hFind strSource
  rw [stringReplacer_eq_join hFind hcut]
  exact turns_of_cut hlt hcut []

/-- What is searched stands behind an occurrence. -/
theorem searched_behind (hlt : strFind.length < 2 ^ 31) {rest : Str} {pieces : List Str}
    (hcut : Cut strFind rest pieces) (done : Str) {r : Replacing}
    (h : Turns strFind strReplace ⟨done ++ rest, done.length⟩ r) :
    Behind strFind rest (r.strSource.drop r.j) := by
  induction hcut generalizing done with
  | @last s hnone =>
    rcases h.cases_head with rfl | ⟨mid, hturn, -⟩
    · rw [List.drop_left]
      exact Behind.whole s
    · rw [turn_eq_none.mpr (find_behind_none done hnone)] at hturn
      cases hturn
  | @next a s ps hleft hrest ih =>
    rcases h.cases_head with rfl | ⟨mid, hturn, hturns⟩
    · rw [List.drop_left]
      exact Behind.whole _
    · rw [turn_behind strReplace done hleft, leftBehind_of_lt hlt] at hturn
      obtain rfl := Option.some.inj hturn
      exact Behind.next hleft (ih _ hturns)

end

end stringReplacer

/-! ## Which strings are replaced -/

/-- The loop ends and leaves the pieces between the leftmost occurrences that do not overlap, joined
by the replacement; and on the way only the original string is searched, from its beginning or from
behind one of these occurrences. -/
def ReplacesLeftmost (strSource strFind strReplace : Str) : Prop :=
  (∃ pieces, Cut strFind strSource pieces ∧
    stringReplacer.Leaves strFind strReplace strSource (strReplace.intercalate pieces)) ∧
  ∀ r, stringReplacer.Turns strFind strReplace ⟨strSource, 0⟩ r →
    Behind strFind strSource (r.strSource.drop r.j)

/-- The first occurrence and all behind it are copies of the pattern, and nothing is lost with
them. -/
def EndsInCopies (strSource strFind strReplace : Str) : Prop :=
  ∃ a n, strSource = a ++ (List.replicate (n + 1) strFind).flatten ∧
    (∀ j < a.length, ¬ strFind <+: strSource.drop j) ∧ (n = 0 ∨ strReplace = [])

namespace stringReplacer

variable {strSource strFind strReplace : Str}

theorem replaces_of_absent (h : ¬ strFind <:+: strSource) :
    ReplacesLeftmost strSource strFind strReplace := by
  have hend : turn strFind strReplace ⟨strSource, 0⟩ = none :=
    turn_eq_none.mpr (find_behind_none [] h)
  refine ⟨⟨[strSource], Cut.last h, _, Relation.ReflTransGen.refl, hend, ?_⟩, fun r hturns => ?_⟩
  · rw [List.intercalate_singleton]
  · rcases hturns.cases_head with rfl | ⟨mid, hturn, -⟩
    · exact Behind.whole strSource
    · rw [hend] at hturn
      cases hturn

theorem replaces_of_lt (hlt : strFind.length < 2 ^ 31) (hFind : strFind ≠ []) :
    ReplacesLeftmost strSource strFind strReplace := by
  obtain ⟨pieces, hcut⟩ := exists_cut hFind strSource
  have hleaves := leaves_stringReplacer strReplace hlt hFind strSource
  rw [stringReplacer_eq_join hFind hcut] at hleaves
  exact ⟨⟨pieces, hcut, hleaves⟩,
    fun r hturns => searched_behind hlt hcut [] hturns⟩

/-- A negative length takes the rest of the string away, and the loop ends there. -/
theorem turns_of_neg (hneg : sizeToInt strFind.length < 0) (hFind : strFind ≠ []) {a rest : Str}
    (hleft : ∀ j < a.length, ¬ strFind <+: (a ++ (strFind ++ rest)).drop j) {r : Replacing}
    (h : Turns strFind strReplace ⟨a ++ (strFind ++ rest), 0⟩ r) :
    r = ⟨a ++ (strFind ++ rest), 0⟩ ∨ r = ⟨a ++ strReplace, (a ++ strReplace).length⟩ := by
  have hturn : turn strFind strReplace ⟨a ++ (strFind ++ rest), 0⟩ =
      some ⟨a ++ strReplace, (a ++ strReplace).length⟩ := by
    have hbehind := turn_behind strReplace [] hleft
    rw [leftBehind, if_pos hneg, List.append_nil] at hbehind
    exact hbehind
  have hend : turn strFind strReplace ⟨a ++ strReplace, (a ++ strReplace).length⟩ = none := by
    have hnone := find_behind_none (a ++ strReplace)
      (show ¬ strFind <:+: [] from fun h => hFind (List.infix_nil.mp h))
    rw [List.append_nil] at hnone
    exact turn_eq_none.mpr hnone
  rcases h.cases_head with rfl | ⟨mid, hmid, hrest⟩
  · exact Or.inl rfl
  · rw [hturn] at hmid
    obtain rfl := Option.some.inj hmid
    rcases hrest.cases_head with rfl | ⟨last, hlast, -⟩
    · exact Or.inr rfl
    · rw [hend] at hlast
      cases hlast

/-- What is left then is the text in front of the occurrence and the replacement. -/
theorem leaves_of_neg (hneg : sizeToInt strFind.length < 0) (hFind : strFind ≠ []) {a rest : Str}
    (hleft : ∀ j < a.length, ¬ strFind <+: (a ++ (strFind ++ rest)).drop j) :
    Leaves strFind strReplace (a ++ (strFind ++ rest)) (a ++ strReplace) := by
  have hturn := turn_behind strReplace [] hleft
  rw [leftBehind, if_pos hneg, List.append_nil] at hturn
  refine ⟨_, Relation.ReflTransGen.single hturn, ?_, rfl⟩
  have hnone := find_behind_none (a ++ strReplace)
    (show ¬ strFind <:+: [] from fun h => hFind (List.infix_nil.mp h))
  rw [List.append_nil] at hnone
  exact turn_eq_none.mpr hnone

theorem replaces_of_neg_iff (hneg : sizeToInt strFind.length < 0) (hFind : strFind ≠ [])
    (hocc : strFind <:+: strSource) :
    ReplacesLeftmost strSource strFind strReplace ↔
      EndsInCopies strSource strFind strReplace := by
  obtain ⟨pieces, hcut⟩ := exists_cut hFind strSource
  obtain ⟨hnone, -⟩ | ⟨a, rest, qs, rfl, hleft, hrest, rfl⟩ := hcut.inversion
  · exact absurd hocc hnone
  have hnil := hrest.intercalate_eq_nil_iff hFind strReplace
  constructor
  · rintro ⟨⟨pieces, hpieces, hleaves⟩, -⟩
    have hresult := leaves_unique hleaves (leaves_of_neg hneg hFind hleft)
    rw [hpieces.unique hcut, List.intercalate_cons_of_ne_nil hrest.ne_nil,
      List.append_right_eq_self] at hresult
    obtain ⟨n, rfl, hor⟩ := hnil.mp hresult
    exact ⟨a, n, by rw [List.replicate_succ, List.flatten_cons], hleft, hor⟩
  · rintro ⟨b, n, hsource, hfirst, hor⟩
    rw [List.replicate_succ, List.flatten_cons] at hsource
    rw [hsource] at hfirst
    obtain ⟨rfl, hrest'⟩ := Cut.first_unique hsource hleft hfirst
    have hjoined : strReplace.intercalate qs = [] := hnil.mpr ⟨n, hrest', hor⟩
    refine ⟨⟨_, hcut, ?_⟩, fun r hturns => ?_⟩
    · rw [List.intercalate_cons_of_ne_nil hrest.ne_nil, hjoined, List.append_nil]
      exact leaves_of_neg hneg hFind hleft
    · rcases turns_of_neg hneg hFind hleft hturns with rfl | rfl
      · exact Behind.whole _
      · rw [List.drop_length]
        exact Behind.next hleft (hrest' ▸ behind_replicate strFind n)

/-- A length that is too small leaves a part of the pattern. It is searched again, and for ever when
it is the whole pattern. -/
theorem not_replaces_of_nonneg (hpos : 0 ≤ sizeToInt strFind.length)
    (hsmall : sizeToInt strFind.length < strFind.length) (hFind : strFind ≠ [])
    (hocc : strFind <:+: strSource) : ¬ ReplacesLeftmost strSource strFind strReplace := by
  obtain ⟨pieces, hcut⟩ := exists_cut hFind strSource
  obtain ⟨hnone, -⟩ | ⟨a, rest, qs, rfl, hleft, hrest, rfl⟩ := hcut.inversion
  · exact absurd hocc hnone
  rintro ⟨⟨pieces, -, r, hturns, hend, -⟩, hbehind⟩
  have hleftBehind : leftBehind strFind rest =
      (strFind ++ rest).drop (sizeToInt strFind.length).toNat := if_neg (by omega)
  have hfirst := turn_behind strReplace [] hleft
  have hsearched := hbehind _ (Relation.ReflTransGen.single hfirst)
  dsimp only at hsearched
  rw [List.drop_left, hleftBehind] at hsearched
  rcases hsearched.eq_or_length_le with hwhole | ⟨b, c, hsource, hfirstOcc, hle⟩
  · -- nothing was taken away
    have hlength := congrArg List.length hwhole
    simp only [List.length_drop, List.length_append] at hlength
    have ha : a = [] := List.length_eq_zero_iff.mp (by omega)
    have hzero : (sizeToInt strFind.length).toNat = 0 := by omega
    subst ha
    rw [hzero, List.drop_zero] at hleftBehind
    have hsame : ∀ done : Str, ∃ done' : Str,
        turn strFind strReplace ⟨done ++ (strFind ++ rest), done.length⟩ =
          some ⟨done' ++ (strFind ++ rest), done'.length⟩ := by
      intro done
      have hturn := turn_behind strReplace done hleft
      rw [hleftBehind] at hturn
      exact ⟨_, hturn⟩
    have hreached : ∀ {q}, Turns strFind strReplace ⟨strFind ++ rest, 0⟩ q →
        ∃ done : Str, q = ⟨done ++ (strFind ++ rest), done.length⟩ := by
      intro q hturns
      induction hturns with
      | refl => exact ⟨[], rfl⟩
      | tail _ hturn ih =>
        obtain ⟨done, rfl⟩ := ih
        obtain ⟨done', hturn'⟩ := hsame done
        exact ⟨done', Option.some.inj (hturn.symm.trans hturn')⟩
    obtain ⟨done, rfl⟩ := hreached hturns
    obtain ⟨done', hturn⟩ := hsame done
    rw [hend] at hturn
    cases hturn
  · -- what is searched is longer than what stands behind the occurrence
    rw [hsource] at hfirstOcc
    obtain ⟨-, rfl⟩ := Cut.first_unique hsource hleft hfirstOcc
    simp only [List.length_drop, List.length_append] at hle
    omega

end stringReplacer

/-- A string is replaced as it should be exactly when the length of the pattern fits in an `int`,
the pattern does not occur, or a negative length takes nothing with it that should have stayed. -/
theorem stringReplacer_leftmost_iff (strSource strReplace : Str) {strFind : Str}
    (hFind : strFind ≠ []) :
    ReplacesLeftmost strSource strFind strReplace ↔
      strFind.length < 2 ^ 31 ∨ ¬ strFind <:+: strSource ∨
        sizeToInt strFind.length < 0 ∧ EndsInCopies strSource strFind strReplace := by
  by_cases hlt : strFind.length < 2 ^ 31
  · exact iff_of_true (stringReplacer.replaces_of_lt hlt hFind) (Or.inl hlt)
  by_cases hocc : strFind <:+: strSource
  · rw [or_iff_right hlt, or_iff_right (not_not_intro hocc)]
    have hint := sizeToInt_lt strFind.length
    by_cases hneg : sizeToInt strFind.length < 0
    · rw [and_iff_right hneg]
      exact stringReplacer.replaces_of_neg_iff hneg hFind hocc
    · exact iff_of_false (stringReplacer.not_replaces_of_nonneg (by omega) (by omega) hFind hocc)
        fun h => hneg h.1
  · exact iff_of_true (stringReplacer.replaces_of_absent hocc) (Or.inr (Or.inl hocc))

theorem stringReplacer_leftmost_slash : ReplacesLeftmost "/a/b".toList ['/'] ['-'] :=
  (stringReplacer_leftmost_iff "/a/b".toList ['-'] (by decide)).mpr (Or.inl (by decide))

/-- A pattern of `2 ^ 31` bytes takes the byte behind it with it. -/
theorem stringReplacer_long_pattern :
    Cut (List.replicate (2 ^ 31) 'a') (List.replicate (2 ^ 31) 'a' ++ ['x']) [[], ['x']] ∧
      ¬ stringReplacer.Leaves (List.replicate (2 ^ 31) 'a') []
        (List.replicate (2 ^ 31) 'a' ++ ['x']) ['x'] ∧
      ¬ ReplacesLeftmost (List.replicate (2 ^ 31) 'a' ++ ['x']) (List.replicate (2 ^ 31) 'a')
        [] := by
  have hlength : (List.replicate (2 ^ 31) 'a').length = 2 ^ 31 := List.length_replicate
  generalize List.replicate (2 ^ 31) 'a' = strFind at hlength
  have hneg : sizeToInt strFind.length < 0 := by
    rw [hlength]
    decide
  have hne : strFind ≠ [] := by
    rintro rfl
    exact absurd hlength (by decide)
  have hshort : ¬ strFind <:+: ['x'] := fun h => by
    have hle := h.length_le
    rw [hlength, List.length_singleton] at hle
    exact absurd hle (by decide)
  have hleft : ∀ j < ([] : Str).length, ¬ strFind <+: ([] ++ (strFind ++ ['x'])).drop j :=
    fun j hj => absurd hj (Nat.not_lt_zero j)
  have hcut : Cut strFind (strFind ++ ['x']) [[], ['x']] := Cut.next hleft (Cut.last hshort)
  have hleaves : stringReplacer.Leaves strFind [] (strFind ++ ['x']) [] :=
    stringReplacer.leaves_of_neg hneg hne hleft
  have hnot : ¬ stringReplacer.Leaves strFind [] (strFind ++ ['x']) ['x'] := fun h =>
    absurd (stringReplacer.leaves_unique h hleaves) (by decide)
  refine ⟨hcut, hnot, fun ⟨⟨pieces, hpieces, h⟩, _⟩ => hnot ?_⟩
  rw [hpieces.unique hcut] at h
  exact h

end AdbncFs
