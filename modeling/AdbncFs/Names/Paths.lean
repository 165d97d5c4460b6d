import AdbncFs.Text.Arrays
import AdbncFs.Text.Cuts

/-!
# Path names

The string functions of `adbncfs.cpp` on path names: `stringReplacer`, which joins the pieces
between the occurrences of a pattern, `makeLocalPath` and `parent`. FUSE hands the callbacks
absolute normalized paths; `DevPath` is such a path as the list of its names, and `DevPath.str`
is the string the callbacks get.
-/

namespace AdbncFs

open Text

/-! ## `stringReplacer` -/

/-- The loop of `stringReplacer` for a `strFind` whose length fits the `int` of the source
(`stringReplacer.turn` has it for any). With an empty `strFind` the loop of the source does not
end, so a non-empty one is asked for. -/
def stringReplacer.loop (strFind strReplace : Str) (hFind : strFind ≠ []) (strSource : Str)
    (j : Nat) : Str :=
  match _h : find strSource strFind j with
  | none => strSource
  | some i =>
    stringReplacer.loop strFind strReplace hFind
      (replace strSource i strFind.length strReplace) (i + strReplace.length)
termination_by strSource.length - j
decreasing_by
  have h1 := find_end _h
  have h2 := (find_eq_some.mp _h).1.1
  have h3 := length_replace (r := strReplace) h1
  have h4 := List.length_pos_iff.mpr hFind
  omega

def stringReplacer (strSource strFind strReplace : Str) (hFind : strFind ≠ []) : Str :=
  stringReplacer.loop strFind strReplace hFind strSource 0

section

variable {strFind strReplace : Str}

theorem stringReplacer.loop_of_none {hFind : strFind ≠ []} {strSource : Str} {j : Nat}
    (h : find strSource strFind j = none) :
    loop strFind strReplace hFind strSource j = strSource := by
  rw [loop]
  split
  · rfl
  · rename_i i hsome
    rw [h] at hsome
    cases hsome

theorem stringReplacer.loop_of_some {hFind : strFind ≠ []} {strSource : Str} {i j : Nat}
    (h : find strSource strFind j = some i) :
    loop strFind strReplace hFind strSource j =
      loop strFind strReplace hFind (replace strSource i strFind.length strReplace)
        (i + strReplace.length) := by
  rw [loop]
  split
  · rename_i hnone
    rw [h] at hnone
    cases hnone
  · rename_i i' hsome
    rw [h] at hsome
    cases hsome
    rfl

/-- The first occurrence behind a finished text. -/
theorem find_behind (done : Str) {a s : Str}
    (hleft : ∀ j < a.length, ¬ strFind <+: (a ++ (strFind ++ s)).drop j) :
    find (done ++ (a ++ (strFind ++ s))) strFind done.length = some (done.length + a.length) := by
  rw [find_eq_some]
  refine ⟨⟨Nat.le_add_right _ _, by simp, ?_⟩, fun j hj hlt => ?_⟩
  · rw [List.drop_length_add_append]
    exact Cut.prefix_drop_middle a s
  · obtain ⟨k, rfl⟩ := Nat.exists_eq_add_of_le hj
    rw [List.drop_length_add_append]
    exact hleft k (by omega)

theorem find_behind_none (done : Str) {s : Str} (hnone : ¬ strFind <:+: s) :
    find (done ++ s) strFind done.length = none := by
  rw [find_eq_none]
  intro i hi _ hpre
  obtain ⟨k, rfl⟩ := Nat.exists_eq_add_of_le hi
  rw [List.drop_length_add_append] at hpre
  exact hnone (hpre.isInfix.trans (List.drop_suffix k s).isInfix)

/-- The text before the search position is finished; the pieces of the rest are joined. -/
theorem stringReplacer.loop_of_cut (hFind : strFind ≠ []) {rest : Str} {pieces : List Str}
    (hcut : Cut strFind rest pieces) (done : Str) :
    loop strFind strReplace hFind (done ++ rest) done.length =
      done ++ strReplace.intercalate pieces := by
  induction hcut generalizing done with
  | last hnone => rw [loop_of_none (find_behind_none done hnone), List.intercalate_singleton]
  | @next a s ps hleft hrest ih =>
    have hreplaced : replace (done ++ (a ++ (strFind ++ s))) (done.length + a.length)
        strFind.length strReplace = done ++ (a ++ strReplace) ++ s := by
      have hbehind : (done ++ (a ++ (strFind ++ s))).drop
          (done.length + a.length + strFind.length) = s := by
        rw [Nat.add_assoc, List.drop_length_add_append, List.drop_length_add_append, List.drop_left]
      rw [replace, hbehind, List.take_length_add_append, List.take_left]
      simp only [List.append_assoc]
    have hposition : done.length + a.length + strReplace.length =
        (done ++ (a ++ strReplace)).length := by
      simp only [List.length_append, Nat.add_assoc]
    rw [loop_of_some (find_behind done hleft), hreplaced, hposition, ih,
      List.intercalate_cons_of_ne_nil hrest.ne_nil]
    simp only [List.append_assoc]

/-- `stringReplacer` joins the pieces that the occurrences leave by the replacement. -/
theorem stringReplacer_eq_join (hFind : strFind ≠ []) {strSource : Str} {pieces : List Str}
    (hcut : Cut strFind strSource pieces) :
    stringReplacer strSource strFind strReplace hFind = strReplace.intercalate pieces :=
  stringReplacer.loop_of_cut hFind hcut []

end

/-- What `stringReplacer` with one-character strings does to a character. -/
def swapChar (c d x : Char) : Char := if x = c then d else x

theorem map_swapChar_of_not_mem {c d : Char} {s : Str} (h : c ∉ s) : s.map (swapChar c d) = s := by
  conv_rhs => rw [← List.map_id s]
  apply List.map_congr_left
  intro x hx
  have hne : x ≠ c := fun he => h (he ▸ hx)
  simp [swapChar, hne]

theorem singleton_prefix_drop {c : Char} {s : Str} {i : Nat} :
    [c] <+: s.drop i ↔ s[i]? = some c := by
  rw [← List.head?_drop]
  cases s.drop i with
  | nil => simp
  | cons x t => simp [eq_comm]

/-- The pieces between the `c`, joined by `d`. -/
theorem intercalate_of_cut {c d : Char} {s : Str} {pieces : List Str} (h : Cut [c] s pieces) :
    [d].intercalate pieces = s.map (swapChar c d) := by
  induction h with
  | last hnone =>
    rw [List.singleton_infix_iff] at hnone
    rw [List.intercalate_singleton, map_swapChar_of_not_mem hnone]
  | @next a s ps hleft hrest ih =>
    have hnot : c ∉ a := by
      intro hc
      obtain ⟨j, hj, hget⟩ := List.mem_iff_getElem.mp hc
      refine hleft j hj (singleton_prefix_drop.mpr ?_)
      rw [List.getElem?_append_left hj, List.getElem?_eq_getElem hj, hget]
    rw [List.intercalate_cons_of_ne_nil hrest.ne_nil, ih, List.map_append,
      map_swapChar_of_not_mem hnot]
    simp [swapChar]

theorem stringReplacer_char (s : Str) (c d : Char) :
    stringReplacer s [c] [d] (by simp) = s.map (swapChar c d) := by
  obtain ⟨pieces, hcut⟩ := exists_cut (List.cons_ne_nil c []) s
  rw [stringReplacer_eq_join _ hcut, intercalate_of_cut hcut]

/-! ## `makeLocalPath` -/

/-- The path of the local copy of `strPath` in the directory `strTempDirPath`. -/
def makeLocalPath (strTempDirPath strPath : Str) : Str :=
  strTempDirPath ++ stringReplacer strPath ['/'] ['-'] (by simp)

theorem makeLocalPath_eq (dir p : Str) :
    makeLocalPath dir p = dir ++ p.map (swapChar '/' '-') := by
  rw [makeLocalPath, stringReplacer_char]

theorem makeLocalPath_inj {dir p q : Str} :
    makeLocalPath dir p = makeLocalPath dir q ↔
      p.map (swapChar '/' '-') = q.map (swapChar '/' '-') := by
  rw [makeLocalPath_eq, makeLocalPath_eq, List.append_cancel_left_eq]

/-! ## `parent` -/

def parent (strPath : Str) : Str :=
  if strPath.length ≠ 1 ∨ strPath[0]? ≠ some '/' then
    if strPath.length > 0 then
      -- strip last slash if there is one
      let strParent :=
        if strPath[strPath.length - 1]? = some '/' then strPath.take (strPath.length - 1)
        else strPath
      let strParent :=
        match rfind strParent '/' with
        | none => strParent
        | some uiPos => strParent.take (if uiPos = 0 then 1 else uiPos)
      if strParent = strPath then ['.'] else strParent
    else ['.']
  else strPath

theorem mem_parent {c : Char} {strPath : Str} (h : c ∈ parent strPath) : c ∈ strPath ∨ c = '.' := by
  have hstripped : ∀ d ∈ (if strPath[strPath.length - 1]? = some '/' then
      strPath.take (strPath.length - 1) else strPath), d ∈ strPath := by
    intro d hd
    split at hd
    · exact List.mem_of_mem_take hd
    · exact hd
  have hchoose : ∀ t : Str, (∀ d ∈ t, d ∈ strPath) →
      c ∈ (if t = strPath then ['.'] else t) → c ∈ strPath ∨ c = '.' := by
    intro t ht hc
    split at hc
    · exact Or.inr (List.mem_singleton.mp hc)
    · exact Or.inl (ht c hc)
  rw [parent] at h
  split at h
  · split at h
    · dsimp only at h
      split at h
      · exact hchoose _ hstripped h
      · exact hchoose _ (fun d hd => hstripped d (List.mem_of_mem_take hd)) h
    · exact Or.inr (List.mem_singleton.mp h)
  · exact Or.inl h

/-! ## Normalized paths -/

/-- A file name: not empty, without slash and NUL, and neither `.` nor `..`. -/
structure Name where
  str : Str
  ne_nil : str ≠ []
  noSlash : '/' ∉ str
  noNul : '\x00' ∉ str
  ne_dot : str ≠ ['.']
  ne_dotdot : str ≠ ['.', '.']
  deriving DecidableEq

/-- An absolute normalized path, as the list of its names from the root. -/
abbrev DevPath := List Name

/-- The names of a path below some directory, each after a slash. -/
def DevPath.below (p : DevPath) : Str := p.flatMap fun n => '/' :: n.str

/-- The path as a string: `/` for the root. -/
def DevPath.str (p : DevPath) : Str := if p = [] then ['/'] else p.below

end AdbncFs
