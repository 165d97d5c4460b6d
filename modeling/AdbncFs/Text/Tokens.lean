import AdbncFs.Text.Pieces
import AdbncFs.Text.Str

/-!
# Tokens

What `strtok_r` cuts out of a text, and how the tokens of a text follow from those of its
parts. `Clean delim t` says that `t` can be a token: it is not empty and holds no delimiter.
-/

namespace Text

variable {delim : Str}

/-- A text that is one token. -/
structure Clean (delim t : Str) : Prop where
  ne_nil : t ≠ []
  not_mem : ∀ c ∈ t, c ∉ delim

theorem strtok_r_nil : strtok_r delim [] = none := rfl

/-- Delimiters in front of a token are skipped. -/
theorem strtok_r_delim {d : Char} (hd : d ∈ delim) (s : Str) :
    strtok_r delim (d :: s) = strtok_r delim s := by
  simp only [strtok_r, List.dropWhile_cons, hd, decide_true, if_true]

theorem Clean.dropWhile_append {t : Str} (ht : Clean delim t) (rest : Str) :
    (t ++ rest).dropWhile (· ∈ delim) = t ++ rest := by
  obtain ⟨c, t', rfl⟩ := List.exists_cons_of_ne_nil ht.ne_nil
  have hc : c ∉ delim := ht.not_mem c List.mem_cons_self
  rw [List.cons_append, List.dropWhile_cons, if_neg (by simpa using hc)]

/-- A token ends at the next delimiter, which is skipped. -/
theorem strtok_r_token {t : Str} (ht : Clean delim t) {d : Char} (hd : d ∈ delim) (rest : Str) :
    strtok_r delim (t ++ d :: rest) = some (t, rest) := by
  have hclean : ∀ c ∈ t, decide (c ∉ delim) = true := fun c hc => by simpa using ht.not_mem c hc
  have hne : t ++ d :: rest ≠ [] := by simp
  rw [strtok_r]
  simp only [ht.dropWhile_append, if_neg hne, List.takeWhile_append_of_pos hclean,
    List.dropWhile_append_of_pos hclean]
  rw [List.takeWhile_cons, List.dropWhile_cons]
  simp [hd]

theorem strtok_r_last {t : Str} (ht : Clean delim t) : strtok_r delim t = some (t, []) := by
  have hclean : ∀ c ∈ t, decide (c ∉ delim) = true := fun c hc => by simpa using ht.not_mem c hc
  have hdrop : t.dropWhile (fun c => decide (c ∈ delim)) = t := by
    simpa using ht.dropWhile_append []
  rw [strtok_r]
  simp only [hdrop, if_neg ht.ne_nil, List.takeWhile_eq_self_iff.mpr hclean,
    List.dropWhile_eq_nil_iff.mpr hclean, List.tail_nil]

/-- The first token, empty where there is none. -/
def leadingToken (delim s : Str) : Str := (s.dropWhile (· ∈ delim)).takeWhile (· ∉ delim)

/-- The text behind the first token and the delimiter that ends it. -/
def behindToken (delim s : Str) : Str :=
  ((s.dropWhile (· ∈ delim)).dropWhile (· ∉ delim)).tail

/-- A first token starts where the delimiters end. -/
theorem leadingToken_eq_nil {s : Str} :
    leadingToken delim s = [] ↔ s.dropWhile (· ∈ delim) = [] := by
  rw [leadingToken]
  cases h : s.dropWhile (fun c => decide (c ∈ delim)) with
  | nil => simp
  | cons c rest =>
    have hc : c ∉ delim := by
      have hne : s.dropWhile (fun c => decide (c ∈ delim)) ≠ [] := by
        rw [h]
        exact List.cons_ne_nil c rest
      have hhead := List.head_dropWhile_not (fun c => decide (c ∈ delim)) hne
      simp only [h, List.head_cons] at hhead
      simpa using hhead
    simp [hc]

theorem strtok_r_eq (s : Str) :
    strtok_r delim s =
      if leadingToken delim s = [] then none
      else some (leadingToken delim s, behindToken delim s) := by
  rw [strtok_r]
  by_cases h : s.dropWhile (fun c => decide (c ∈ delim)) = []
  · rw [if_pos h, if_pos (leadingToken_eq_nil.mpr h)]
  · rw [if_neg h, if_neg (mt leadingToken_eq_nil.mp h)]
    rfl

theorem behindToken_eq_nil {s : Str} (h : leadingToken delim s = []) :
    behindToken delim s = [] := by
  rw [behindToken, leadingToken_eq_nil.mp h]
  rfl

theorem leadingToken_of_some {s t rest : Str} (h : strtok_r delim s = some (t, rest)) :
    leadingToken delim s = t ∧ behindToken delim s = rest := by
  rw [strtok_r_eq] at h
  split at h
  · cases h
  · exact Prod.mk.inj (Option.some.inj h)

theorem strtokAll_of_none {s : Str} (h : strtok_r delim s = none) : strtokAll delim s = [] := by
  rw [strtokAll]
  split
  · rfl
  · rename_i p hp
    rw [h] at hp
    cases hp

theorem strtokAll_of_some {s t rest : Str} (h : strtok_r delim s = some (t, rest)) :
    strtokAll delim s = t :: strtokAll delim rest := by
  rw [strtokAll]
  split
  · rename_i hn
    rw [h] at hn
    cases hn
  · rename_i p hp
    rw [h] at hp
    cases hp
    rfl

/-- The tokens one by one: the leading one and those of the text behind it. -/
theorem strtokAll_eq_ite (s : Str) :
    strtokAll delim s =
      if leadingToken delim s = [] then []
      else leadingToken delim s :: strtokAll delim (behindToken delim s) := by
  have hnext : strtok_r delim s = _ := strtok_r_eq s
  split at hnext
  · rw [strtokAll_of_none hnext, if_pos ‹_›]
  · rw [strtokAll_of_some hnext, if_neg ‹_›]

theorem leadingToken_subset (s : Str) : leadingToken delim s ⊆ s := by
  intro c hc
  exact (List.dropWhile_suffix _).mem ((List.takeWhile_prefix _).mem hc)

/-- Only delimiters have no token. -/
theorem strtokAll_eq_nil_iff {s : Str} : strtokAll delim s = [] ↔ ∀ c ∈ s, c ∈ delim := by
  have hall : (∀ c ∈ s, c ∈ delim) ↔ s.dropWhile (fun c => decide (c ∈ delim)) = [] := by
    rw [List.dropWhile_eq_nil_iff]
    simp
  rw [hall, ← leadingToken_eq_nil, strtokAll_eq_ite]
  by_cases h : leadingToken delim s = []
  · rw [if_pos h]
    exact iff_of_true rfl h
  · rw [if_neg h]
    exact iff_of_false (List.cons_ne_nil _ _) h

/-- Text that starts with no delimiter has a token. -/
theorem strtokAll_ne_nil {c : Char} (hc : c ∉ delim) (s : Str) : strtokAll delim (c :: s) ≠ [] :=
  fun h => hc (strtokAll_eq_nil_iff.mp h c List.mem_cons_self)

theorem strtokAll_delim {d : Char} (hd : d ∈ delim) (s : Str) :
    strtokAll delim (d :: s) = strtokAll delim s := by
  rw [strtokAll.eq_1 delim (d :: s), strtok_r_delim hd, ← strtokAll.eq_1]

/-- A token at the front, where a delimiter follows it or nothing. -/
theorem strtokAll_token {t s : Str} (ht : Clean delim t)
    (hs : ∀ d, s.head? = some d → d ∈ delim) :
    strtokAll delim (t ++ s) = t :: strtokAll delim s := by
  cases s with
  | nil =>
    rw [List.append_nil, strtokAll_of_some (strtok_r_last ht)]
  | cons d s =>
    have hd := hs d rfl
    rw [strtokAll_of_some (strtok_r_token ht hd s), strtokAll_delim hd]

/-- Every text is made of delimiters and tokens, with a delimiter behind a token or nothing. -/
theorem tokens_induct (delim : Str) {motive : Str → Prop} (nil : motive [])
    (delimiter : ∀ d s, d ∈ delim → motive s → motive (d :: s))
    (token : ∀ t s, Clean delim t → (∀ d, s.head? = some d → d ∈ delim) → motive s →
      motive (t ++ s)) (s : Str) : motive s := by
  generalize hn : s.length = n
  induction n using Nat.strongRecOn generalizing s with
  | ind n ih =>
    cases s with
    | nil => exact nil
    | cons c s =>
      rw [List.length_cons] at hn
      by_cases hc : c ∈ delim
      · exact delimiter c s hc (ih s.length (by omega) s rfl)
      · have ht : Clean delim ((c :: s).takeWhile fun c => decide (c ∉ delim)) := by
          constructor
          · simp [hc]
          · intro d hd
            simpa using List.mem_takeWhile_imp hd
        have hs : ∀ d, ((c :: s).dropWhile fun c => decide (c ∉ delim)).head? = some d →
            d ∈ delim := by
          intro d hd
          have hhead := List.head?_dropWhile_not (fun c => decide (c ∉ delim)) (c :: s)
          rw [hd] at hhead
          simpa using hhead
        have hlt : ((c :: s).dropWhile fun c => decide (c ∉ delim)).length < n := by
          rw [List.dropWhile_cons, if_pos (by simpa using hc)]
          have := length_dropWhile_le (fun c => decide (c ∉ delim)) s
          omega
        have hmotive := token _ _ ht hs (ih _ hlt _ rfl)
        rwa [List.takeWhile_append_dropWhile] at hmotive

/-- The tokens are the parts between delimiters that are not empty. -/
theorem strtokAll_eq_splitOnP (s : Str) :
    strtokAll delim s = (s.splitOnP (· ∈ delim)).filter (· ≠ []) := by
  induction s using tokens_induct delim with
  | nil => simp [strtokAll_of_none strtok_r_nil]
  | delimiter d s hd ih =>
    rw [strtokAll_delim hd, ih, List.splitOnP_cons_eq_if_modifyHead, if_pos (by simpa using hd)]
    simp
  | token t s ht hs ih =>
    have htFalse : ∀ d ∈ t, decide (d ∈ delim) = false := fun d hd => by
      simpa using ht.not_mem d hd
    rw [strtokAll_token ht hs, ih]
    cases s with
    | nil =>
      rw [List.append_nil, List.splitOnP_eq_singleton htFalse]
      simp [ht.ne_nil]
    | cons d s =>
      have hd := hs d rfl
      rw [List.splitOnP_append_cons_of_forall_mem htFalse d (by simpa using hd),
        List.splitOnP_cons_eq_if_modifyHead, if_pos (by simpa using hd)]
      simp [ht.ne_nil]

/-- The tokens are the maximal pieces without delimiters. -/
theorem strtokAll_maximalPieces (s : Str) : MaximalPieces (· ∈ delim) s (strtokAll delim s) := by
  induction s using tokens_induct delim with
  | nil =>
    rw [strtokAll_of_none strtok_r_nil]
    exact maximalPieces_nil
  | delimiter d s hd ih =>
    rw [strtokAll_delim hd]
    exact ih.cons hd
  | token t s ht hs ih =>
    rw [strtokAll_token ht hs]
    exact ih.append ht.ne_nil ht.not_mem hs

/-- Two texts with a delimiter between them have the tokens of both. -/
theorem strtokAll_append {d : Char} (hd : d ∈ delim) (s s' : Str) :
    strtokAll delim (s ++ d :: s') = strtokAll delim s ++ strtokAll delim s' := by
  have hsep : (fun c => decide (c ∈ delim)) d = true := decide_eq_true hd
  rw [strtokAll_eq_splitOnP, List.splitOnP_append_cons s s' hsep, List.filter_append,
    ← strtokAll_eq_splitOnP, ← strtokAll_eq_splitOnP]

theorem strtokAll_singleton (d : Char) (s : Str) :
    strtokAll [d] s = (s.splitOn d).filter (· ≠ []) := by
  have hsep : (fun c => decide (c ∈ [d])) = (· == d) := by
    funext c
    rw [Bool.eq_iff_iff]
    simp
  rw [strtokAll_eq_splitOnP, hsep, List.splitOn_eq_splitOnP]

theorem strtokAll_clean {t : Str} (ht : Clean delim t) : strtokAll delim t = [t] := by
  rw [strtokAll_of_some (strtok_r_last ht), strtokAll_of_none strtok_r_nil]

/-- Tokens with one delimiter between any two. -/
theorem strtokAll_intercalate {d : Char} (hd : d ∈ delim) {ts : List Str}
    (hts : ∀ t ∈ ts, Clean delim t) : strtokAll delim ([d].intercalate ts) = ts := by
  induction ts with
  | nil => exact strtokAll_of_none strtok_r_nil
  | cons t ts ih =>
    have ht : Clean delim t := hts t List.mem_cons_self
    have ih := ih fun u hu => hts u (List.mem_cons_of_mem t hu)
    cases ts with
    | nil => simpa [List.intercalate] using strtokAll_clean ht
    | cons u us =>
      rw [List.intercalate_cons_cons, List.append_assoc, List.singleton_append,
        strtokAll_append hd, strtokAll_clean ht, ih]
      rfl

/-- Words, each with what stands behind it. -/
def spread (before : Str) (words : List (Str × Str)) : Str :=
  before ++ words.flatMap fun w => w.1 ++ w.2

/-- Tokens with delimiters around them; only in front of the first and behind the last there
need not be any. -/
structure Spaced (delim before : Str) (words : List (Str × Str)) : Prop where
  before : ∀ c ∈ before, c ∈ delim
  clean : ∀ w ∈ words, Clean delim w.1
  behind : ∀ w ∈ words, ∀ c ∈ w.2, c ∈ delim
  between : ∀ w ∈ words.dropLast, w.2 ≠ []

theorem strtokAll_delims {ds : Str} (hds : ∀ c ∈ ds, c ∈ delim) (s : Str) :
    strtokAll delim (ds ++ s) = strtokAll delim s := by
  induction ds with
  | nil => rfl
  | cons d ds ih =>
    rw [List.cons_append, strtokAll_delim (hds d List.mem_cons_self),
      ih fun c hc => hds c (List.mem_cons_of_mem d hc)]

/-- The tokens of a spread text are its words. -/
theorem strtokAll_spread {before : Str} {words : List (Str × Str)}
    (h : Spaced delim before words) : strtokAll delim (spread before words) =
      words.map Prod.fst := by
  rw [spread, strtokAll_delims h.before]
  obtain ⟨-, hclean, hbehind, hbetween⟩ := h
  induction words with
  | nil => exact strtokAll_of_none strtok_r_nil
  | cons w words ih =>
    have ih := ih (fun v hv => hclean v (List.mem_cons_of_mem w hv))
      (fun v hv => hbehind v (List.mem_cons_of_mem w hv)) fun v hv => by
        refine hbetween v ?_
        rw [List.dropLast_cons_of_ne_nil (List.ne_nil_of_mem (List.mem_of_mem_dropLast hv))]
        exact List.mem_cons_of_mem w hv
    have hw := hbehind w List.mem_cons_self
    have hnext : ∀ d, (w.2 ++ words.flatMap fun w => w.1 ++ w.2).head? = some d → d ∈ delim := by
      intro d hd
      cases hrun : w.2 with
      | cons c run =>
        rw [hrun] at hd hw
        cases hd
        exact hw d List.mem_cons_self
      | nil =>
        -- the last word
        cases words with
        | nil =>
          rw [hrun] at hd
          cases hd
        | cons v words => exact absurd hrun (hbetween w List.mem_cons_self)
    rw [List.flatMap_cons, List.append_assoc, strtokAll_token (hclean w List.mem_cons_self) hnext,
      strtokAll_delims hw, ih, List.map_cons]

theorem not_mem_intercalate {c d : Char} (hd : c ≠ d) {ts : List Str} (h : ∀ t ∈ ts, c ∉ t) :
    c ∉ [d].intercalate ts := by
  induction ts with
  | nil => simp [List.intercalate]
  | cons t ts ih =>
    have ih := ih fun u hu => h u (List.mem_cons_of_mem t hu)
    cases ts with
    | nil => simpa [List.intercalate] using h t List.mem_cons_self
    | cons u us =>
      rw [List.intercalate_cons_cons]
      simp only [List.mem_append, List.mem_singleton, not_or]
      exact ⟨⟨h t List.mem_cons_self, hd⟩, ih⟩

/-- A set that grows by a value of each token. -/
theorem mem_foldl_insert {α : Type} [BEq α] [LawfulBEq α] (f : Str → α) {a : α} (ts : List Str)
    (init : List α) : a ∈ ts.foldl (fun s t => s.insert (f t)) init ↔ a ∈ init ∨ a ∈ ts.map f := by
  induction ts generalizing init with
  | nil => simp
  | cons t ts ih =>
    rw [List.foldl_cons, ih, List.mem_insert_iff, List.map_cons, List.mem_cons, or_assoc,
      or_left_comm]

end Text
