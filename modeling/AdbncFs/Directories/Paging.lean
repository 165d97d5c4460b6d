import AdbncFs.Directories.Listing

/-!
# Reading a directory in pages

A client whose buffer is full refuses an entry and comes back with the offset behind the last
one it took. The offsets increase along a listing, so that a call resumes where the one
before it stopped. The size of a listing is stored into an `int`: what lies past that is never
offered.
-/

namespace AdbncFs

open Text Interaction Function

section

variable {ε : Type} {env : Env ε} {I : World ε → Prop} {found : Str → Bool}

/-! ## A sequence of calls -/

/-- What a call of `adbnc_readdir` offers to the filler. -/
def page {β : Type} (env : Env ε) (openDirs : OpenDirs) (p : Str) (filler : Filler β) (b : β)
    (iOffset : Int) (w : World ε) : List Offer :=
  ((adbnc_readdir openDirs p (b, []) (logged filler) iOffset).run env.handle w).1.2.2

/-- The calls that read a directory from an offset on, and the names accepted. Each call is
made in a world where `I` holds, with a filler and a buffer of its own. Every call but the
last has an entry refused after some were accepted, and the next one resumes behind the last
of these. -/
inductive PagedReading (env : Env ε) (openDirs : OpenDirs) (p : Str) (I : World ε → Prop) :
    Int → List Str → Prop
  | last {β : Type} (filler : Filler β) (b : β) {o : Int} {w : World ε} (hw : I w)
      (h : ∀ x ∈ page env openDirs p filler b o w, x.refused = false) :
      PagedReading env openDirs p I o ((page env openDirs p filler b o w).map Offer.name)
  | more {β : Type} (filler : Filler β) (b : β) {o : Int} {w : World ε} (hw : I w)
      {accepted : List Offer} {r : Offer} (hne : accepted ≠ [])
      (h : page env openDirs p filler b o w = accepted ++ [r])
      (haccepted : ∀ x ∈ accepted, x.refused = false) (hrefused : r.refused = true)
      {names : List Str}
      (next : PagedReading env openDirs p I (accepted.getLast hne).off names) :
      PagedReading env openDirs p I o (accepted.map Offer.name ++ names)

theorem PagedReading.of_page {β : Type} {openDirs : OpenDirs} {p : Str} {filler : Filler β} {b : β}
    {o : Int} {w : World ε} {offers : List Offer} (hw : I w)
    (h : page env openDirs p filler b o w = offers) (hnone : ∀ x ∈ offers, x.refused = false) :
    PagedReading env openDirs p I o (offers.map Offer.name) := by
  subst h
  exact .last filler b hw hnone

/-- The part of an increasing list behind one of its elements. -/
theorem filter_behind {A B : List (Str × Int)} (hne : A ≠ [])
    (hpair : (A ++ B).Pairwise fun x y => x.2 < y.2) :
    (A ++ B).filter (fun x => (A.getLast hne).2 < x.2) = B := by
  obtain ⟨hA, -, hAB⟩ := List.pairwise_append.mp hpair
  have hle : ∀ x ∈ A, x.2 ≤ (A.getLast hne).2 := by
    intro x hx
    rw [← List.dropLast_append_getLast hne] at hx hA
    rcases List.mem_append.mp hx with hx | hx
    · have := (List.pairwise_append.mp hA).2.2 x hx _ (List.mem_singleton_self _)
      omega
    · rw [List.mem_singleton.mp hx]
  rw [List.filter_append]
  have hAnil : A.filter (fun x => (A.getLast hne).2 < x.2) = [] := by
    refine List.filter_eq_nil_iff.mpr fun x hx => ?_
    have := hle x hx
    simpa using this
  have hB : B.filter (fun x => (A.getLast hne).2 < x.2) = B := by
    refine List.filter_eq_self.mpr fun x hx => ?_
    exact decide_eq_true (hAB _ (List.getLast_mem hne) x hx)
  rw [hAnil, hB, List.nil_append]

/-- The entries behind an offset, from those behind a lower one. -/
theorem filter_filter_offset {l : List (Str × Int)} {o o' : Int} (h : o ≤ o') :
    (l.filter fun x => o < x.2).filter (fun x => o' < x.2) = l.filter fun x => o' < x.2 := by
  rw [List.filter_filter]
  refine List.filter_congr fun x _ => ?_
  by_cases hx : o' < x.2
  · have : o < x.2 := by omega
    simp [hx, this]
  · simp [hx]

theorem page_offers (hfix : AnswersFixed env I found) {openDirs : OpenDirs} {p : Str}
    {output : Output} (hstored : openDirs p = some output) {β : Type} (filler : Filler β) (b : β)
    (o : Int) {w : World ε} (hw : I w) :
    ∃ rest,
      (entriesFrom found p (sizeToInt output.length) 0 output).filter (fun x => o < x.2) =
        (page env openDirs p filler b o w).map (fun x => (x.name, x.off)) ++ rest ∧
      ((∀ x ∈ page env openDirs p filler b o w, x.refused = false) → rest = []) := by
  obtain ⟨offers, rest, hlog, heq, -, hrest⟩ := loop_offers hfix p filler o
    (sizeToInt output.length) 0 output b [] hw
  have hpage : page env openDirs p filler b o w = offers := by
    rw [page, adbnc_readdir, hstored]
    dsimp only
    rw [Program.run_bind]
    exact hlog
  rw [hpage]
  exact ⟨rest, heq, hrest⟩

/-- The names accepted are those of the entries behind the offset, each once and in order. -/
theorem PagedReading.names_eq (hfix : AnswersFixed env I found) {openDirs : OpenDirs} {p : Str}
    {output : Output} (hstored : openDirs p = some output) {o : Int} {names : List Str}
    (h : PagedReading env openDirs p I o names) :
    names = ((entriesFrom found p (sizeToInt output.length) 0 output).filter
      fun x => o < x.2).map Prod.fst := by
  induction h with
  | @last β filler b o w hw hall =>
    obtain ⟨rest, heq, hrest⟩ := page_offers hfix hstored filler b o hw
    rw [heq, hrest hall, List.append_nil, List.map_map]
    rfl
  | @more β filler b o w hw accepted r hne hpage hacc href names next ih =>
    obtain ⟨rest, heq, -⟩ := page_offers hfix hstored filler b o hw
    rw [hpage, List.map_append, List.append_assoc] at heq
    have hne' : accepted.map (fun x => (x.name, x.off)) ≠ [] :=
      fun h => hne (List.map_eq_nil_iff.mp h)
    have hlast : (accepted.map (fun x => (x.name, x.off))).getLast hne' =
        ((accepted.getLast hne).name, (accepted.getLast hne).off) := List.getLast_map _
    have hpair := (pairwise_entriesFrom found p (sizeToInt output.length) 0 output).filter
      fun x => o < x.2
    -- the last accepted entry lies behind `o`, so its offset cuts what lies behind `o`
    have hbehind : o ≤ (accepted.getLast hne).off := by
      have hmem : ((accepted.getLast hne).name, (accepted.getLast hne).off) ∈
          (entriesFrom found p (sizeToInt output.length) 0 output).filter fun x => o < x.2 := by
        rw [heq, ← hlast]
        exact List.mem_append_left _ (List.getLast_mem hne')
      have := of_decide_eq_true (List.mem_filter.mp hmem).2
      exact Int.le_of_lt this
    have hcut := filter_behind hne' (heq ▸ hpair)
    rw [hlast, ← heq, filter_filter_offset hbehind] at hcut
    rw [ih, hcut, heq]
    generalize List.map _ [r] ++ rest = behind
    rw [List.map_append, List.map_map]
    rfl

/-! ## What is read -/

theorem entriesFrom_names (found : Str → Bool) (p : Str) (n : Int) (k : Nat)
    (entries : List Str) :
    (entriesFrom found p n (k + 2) entries).map Prod.fst =
      ((entries.zipIdx k).filter fun x =>
        ((x.2 : Int) + 2 < n) ∧ found (fullEntryPath p x.1) = true).map Prod.fst := by
  induction entries generalizing k with
  | nil => rfl
  | cons entry entries ih =>
    have ih := ih (k + 1)
    have hk : ((k + 1 : Nat) : Int) + 2 = (k : Int) + 2 + 1 := by omega
    rw [hk] at ih
    rw [entriesFrom, List.zipIdx_cons]
    by_cases h : (k : Int) + 2 < n ∧ found (fullEntryPath p entry) = true
    · rw [if_pos ⟨by omega, h⟩, List.filter_cons_of_pos (by simpa using h)]
      exact congrArg (_ :: ·) ih
    · rw [if_neg fun h' => h h'.2, List.filter_cons_of_neg (by simpa using h)]
      exact ih

/-- Paged reading from the start gives the entries that exist behind the first two and lie
before the size that is stored into the `int`. -/
theorem PagedReading.names_eq_entriesAt {openDirs : OpenDirs} {p : Str} {rest : List Str}
    (hstored : openDirs p = some (['.'] :: ['.', '.'] :: rest)) (hfix : AnswersFixed env I found)
    {names : List Str} (h : PagedReading env openDirs p I 0 names) :
    names = entriesAt (fun j entry => (j : Int) + 2 < sizeToInt (rest.length + 2) ∧
      found (fullEntryPath p entry) = true) rest := by
  have hall : ∀ x ∈ entriesFrom found p (sizeToInt (rest.length + 2)) 0
      (['.'] :: ['.', '.'] :: rest), decide (0 < x.2) = true := by
    intro x hx
    have := (lt_of_mem_entriesFrom hx).1
    exact decide_eq_true this
  have hdots : entriesFrom found p (sizeToInt (rest.length + 2)) 0
      (['.'] :: ['.', '.'] :: rest) =
        entriesFrom found p (sizeToInt (rest.length + 2)) ((0 : Nat) + 2) rest := by
    rw [entriesFrom, if_neg (by omega), entriesFrom, if_neg (by omega)]
    rfl
  have hlen : (['.'] :: ['.', '.'] :: rest).length = rest.length + 2 := rfl
  have heq := h.names_eq hfix hstored
  rw [hlen, List.filter_eq_self.mpr hall, hdots, entriesFrom_names] at heq
  exact heq

/-- Nothing is lost or repeated of a listing whose size an `int` can hold. -/
theorem PagedReading.complete {openDirs : OpenDirs} {p : Str} {rest : List Str}
    (hstored : openDirs p = some (['.'] :: ['.', '.'] :: rest)) (hfix : AnswersFixed env I found)
    (hlt : rest.length + 2 < 2 ^ 31) {names : List Str}
    (h : PagedReading env openDirs p I 0 names) :
    names = rest.filter fun entry => found (fullEntryPath p entry) := by
  rw [h.names_eq_entriesAt hstored hfix, ← entriesAt_const, entriesAt_and]
  intro j entry hj _
  have hj : j < rest.length := (List.getElem?_eq_some_iff.mp hj).1
  rw [sizeToInt_of_lt hlt]
  omega

/-- Paged reading gives exactly the entries that exist behind the first two, if and only if
each of these lies before the size that is stored into the `int`. -/
theorem pagedReading_iff {openDirs : OpenDirs} {p : Str} {rest : List Str}
    (hstored : openDirs p = some (['.'] :: ['.', '.'] :: rest)) (hfix : AnswersFixed env I found)
    {names : List Str} (h : PagedReading env openDirs p I 0 names) :
    names = rest.filter (fun entry => found (fullEntryPath p entry)) ↔
      ∀ (j : Nat) entry, rest[j]? = some entry → found (fullEntryPath p entry) = true →
        (j : Int) + 2 < sizeToInt (rest.length + 2) := by
  rw [h.names_eq_entriesAt hstored hfix, ← entriesAt_const, entriesAt_and]

end

/-! ## Two directories -/

/-- A filler with room for as many entries as its buffer says. -/
def fillUp : Filler Nat := fun room _ _ _ => (room = 0, room - 1)

/-- What the obliging device answers to the stat command. -/
def obligingStat (p : Str) : Output := [p ++ " 4 8 81b6 0 0 b301 17 1 0 0 1 1 1 4096".toList]

theorem answersFixed_obliging : AnswersFixed Env.obliging (KeepsStat obligingStat)
    fun p => (attributes (obligingStat p)).1 = 0 := answersFixed_of_stat fun _ _ => rfl

theorem keepsStat_start : KeepsStat obligingStat World.start := by
  intro p o h
  cases h

/-- Two files read by two calls, with room for one entry each. -/
theorem pagedReading_twoCalls :
    [['a'], ['b']] = [['a'], ['b']].filter fun entry =>
      (attributes (obligingStat (fullEntryPath ['/', 'd'] entry))).1 = 0 := by
  have hstored : openDirsWith ['/', 'd'] [['.'], ['.', '.'], ['a'], ['b']] ['/', 'd'] =
      some [['.'], ['.', '.'], ['a'], ['b']] := rfl
  have hfirst : page Env.obliging
      (openDirsWith ['/', 'd'] [['.'], ['.', '.'], ['a'], ['b']]) ['/', 'd'] fillUp 1 0
        World.start = [⟨['a'], 3, false⟩] ++ [⟨['b'], 4, true⟩] := by decide +kernel
  have hsecond : page Env.obliging
      (openDirsWith ['/', 'd'] [['.'], ['.', '.'], ['a'], ['b']]) ['/', 'd'] fillUp 1 3
        World.start = [⟨['b'], 4, false⟩] := by decide +kernel
  have hreading : PagedReading Env.obliging
      (openDirsWith ['/', 'd'] [['.'], ['.', '.'], ['a'], ['b']]) ['/', 'd']
      (KeepsStat obligingStat) 0 [['a'], ['b']] :=
    .more fillUp 1 keepsStat_start (List.cons_ne_nil _ _) hfirst (by simp) rfl
      (.of_page keepsStat_start hsecond (by simp))
  refine (pagedReading_iff hstored answersFixed_obliging hreading).mpr fun j entry hj _ => ?_
  have hlt : j < 2 := (List.getElem?_eq_some_iff.mp hj).1
  rw [sizeToInt_of_lt (by decide)]
  change (j : Int) + 2 < 4
  omega

/-- As many entries as make the size negative. -/
def hugeDirectory : List Str := (List.range (2 ^ 31 - 2)).map fun i => 'f' :: Nat.toDigits 10 i

/-- The first call ends the reading, and has offered nothing. -/
theorem pagedReading_offers_nothing :
    PagedReading Env.obliging (openDirsWith ['/', 'd'] (['.'] :: ['.', '.'] :: hugeDirectory))
        ['/', 'd'] (KeepsStat obligingStat) 0 [] ∧
      ¬ [] = hugeDirectory.filter fun entry =>
        (attributes (obligingStat (fullEntryPath ['/', 'd'] entry))).1 = 0 := by
  have hsize : sizeToInt (['.'] :: ['.', '.'] :: hugeDirectory).length ≤ 0 := by
    rw [List.length_cons, List.length_cons, hugeDirectory, List.length_map, List.length_range]
    decide
  have hpage : page Env.obliging (openDirsWith ['/', 'd'] (['.'] :: ['.', '.'] :: hugeDirectory))
      ['/', 'd'] acceptAll () 0 World.start = [] := by
    rw [page, adbnc_readdir, openDirsWith, update_self]
    dsimp only
    rw [Program.run_bind, loop_stop ['/', 'd'] (logged acceptAll) hsize]
    rfl
  refine ⟨.of_page keepsStat_start hpage (fun x hx => (List.not_mem_nil hx).elim), fun h => ?_⟩
  have hmem : 'f' :: Nat.toDigits 10 0 ∈ hugeDirectory :=
    List.mem_map.mpr ⟨0, List.mem_range.mpr (by decide), rfl⟩
  have hfound : (attributes (obligingStat
      (fullEntryPath ['/', 'd'] ('f' :: Nat.toDigits 10 0)))).1 = 0 := by decide +kernel
  have hnot := List.filter_eq_nil_iff.mp h.symm _ hmem
  exact hnot (decide_eq_true hfound)

end AdbncFs
