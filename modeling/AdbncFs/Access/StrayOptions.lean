import AdbncFs.Access.MountLines

/-!
# Lines that mount does not print

`parseMountInfo` compares the second word of a line with `on` and the fourth with `type`, and
takes a word that fails the comparison for the options. Behind the type it looks for the text
after a parenthesis, and finds one also where there is none.
-/

namespace AdbncFs

open Text

namespace MountInfo

/-- `FS on MP type T (options)` -/
def formText (fileSystem mountPoint devType : Field) (options : Str) : Str :=
  fileSystem.str ++ ' ' :: ("on".toList ++ ' ' :: (mountPoint.str ++ ' ' ::
    ("type".toList ++ ' ' :: (devType.str ++ ' ' :: '(' :: (options ++ [')'])))))

/-- A line of this form, with any text between the parentheses. -/
def HasForm (s : Str) : Prop :=
  ∃ (fileSystem mountPoint devType : Field) (options : Str),
    '(' ∉ options ∧ ')' ∉ options ∧ '\x00' ∉ options ∧
      s = formText fileSystem mountPoint devType options

/-- What is left of a line behind its first `n` words. -/
def behindWords : Nat → Str → Str
  | 0, s => s
  | n + 1, s => behindWords n (behindToken [' '] s)

/-- The text that is taken for the options: a second word that is not `on`, a fourth word that
is not `type`, or else what stands behind the fifth word up to a parenthesis. -/
def optionPlace (s : Str) : Str :=
  if leadingToken [' '] (behindWords 1 s) ≠ "on".toList then
    leadingToken [' '] (behindWords 1 s)
  else if leadingToken [' '] (behindWords 3 s) ≠ "type".toList then
    leadingToken [' '] (behindWords 3 s)
  else leadingToken ['('] (behindWords 5 s)

theorem ofTokens_options (s : Str) :
    (Entry.ofTokens s).m_mountOptions =
      (strtokAll [',', ')'] (optionPlace s)).foldl (fun options pch => options.insert pch) [] := by
  have hnone : (strtokAll [',', ')'] []).foldl (fun options pch => options.insert pch)
      ([] : List Str) = [] := by
    rw [strtokAll_of_none strtok_r_nil]
    rfl
  have hplace : optionPlace s =
      if leadingToken [' '] (behindToken [' '] s) ≠ "on".toList then
        leadingToken [' '] (behindToken [' '] s)
      else if leadingToken [' '] (behindToken [' '] (behindToken [' '] (behindToken [' '] s))) ≠
          "type".toList then
        leadingToken [' '] (behindToken [' '] (behindToken [' '] (behindToken [' '] s)))
      else leadingToken ['('] (behindToken [' '] (behindToken [' '] (behindToken [' ']
        (behindToken [' '] (behindToken [' '] s))))) := rfl
  simp only [Entry.ofTokens, strtok_r_eq, hplace]
  by_cases h0 : leadingToken [' '] s = []
  · simp only [if_pos h0, behindToken_eq_nil h0]
    exact hnone.symm
  rw [if_neg h0]
  dsimp only
  generalize behindToken [' '] s = s
  by_cases h1 : leadingToken [' '] s = []
  · simp only [h1, if_true]
    exact hnone.symm
  rw [if_neg h1]
  dsimp only
  by_cases hon : leadingToken [' '] s ≠ "on".toList
  · rw [if_pos hon, if_pos hon]
    rfl
  rw [if_neg hon, if_neg hon]
  generalize behindToken [' '] s = s
  by_cases h2 : leadingToken [' '] s = []
  · simp only [if_pos h2, behindToken_eq_nil h2]
    exact hnone.symm
  rw [if_neg h2]
  dsimp only
  generalize behindToken [' '] s = s
  by_cases h3 : leadingToken [' '] s = []
  · simp only [h3, if_true]
    exact hnone.symm
  rw [if_neg h3]
  dsimp only
  by_cases htype : leadingToken [' '] s ≠ "type".toList
  · rw [if_pos htype, if_pos htype]
    rfl
  rw [if_neg htype, if_neg htype]
  generalize behindToken [' '] s = s
  by_cases h4 : leadingToken [' '] s = []
  · simp only [if_pos h4, behindToken_eq_nil h4]
    exact hnone.symm
  rw [if_neg h4]
  dsimp only
  generalize behindToken [' '] s = s
  by_cases h5 : leadingToken ['('] s = []
  · simp only [h5, if_true]
    exact hnone.symm
  rw [if_neg h5]
  rfl

theorem mem_options_iff {s o : Str} :
    o ∈ (Entry.ofTokens s).m_mountOptions ↔ o ∈ strtokAll [',', ')'] (optionPlace s) := by
  have hmem := mem_foldl_insert (a := o) id (strtokAll [',', ')'] (optionPlace s)) []
  rw [ofTokens_options]
  simpa only [List.map_id, id, List.not_mem_nil, false_or] using hmem

theorem options_eq_nil_iff (s : Str) :
    (Entry.ofTokens s).m_mountOptions = [] ↔ ∀ c ∈ optionPlace s, c = ',' ∨ c = ')' := by
  simp only [List.eq_nil_iff_forall_not_mem, mem_options_iff]
  rw [← List.eq_nil_iff_forall_not_mem, strtokAll_eq_nil_iff]
  simp

/-- In a line with the form, the options are taken from between the parentheses. -/
theorem formText_words (fileSystem mountPoint devType : Field) {options : Str}
    (hopen : '(' ∉ options) :
    leadingToken [' '] (behindWords 3 (formText fileSystem mountPoint devType options)) =
        "type".toList ∧
      optionPlace (formText fileSystem mountPoint devType options) = options ++ [')'] := by
  have hblank : ' ' ∈ [' '] := List.mem_singleton_self _
  have hcut : ∀ {t : Str}, Clean [' '] t → ∀ rest,
      leadingToken [' '] (t ++ ' ' :: rest) = t ∧ behindToken [' '] (t ++ ' ' :: rest) = rest :=
    fun ht rest => leadingToken_of_some (strtok_r_token ht hblank rest)
  have hon : Clean [' '] "on".toList := ⟨by simp, by simp⟩
  have htype : Clean [' '] "type".toList := ⟨by simp, by simp⟩
  have hplace := (leadingToken_of_some (strtok_r_openParen hopen)).1
  simp only [formText, optionPlace, behindWords, hcut fileSystem.clean, hcut hon,
    hcut mountPoint.clean, hcut htype, hcut devType.clean, hplace]
  exact ⟨trivial, rfl⟩

/-- No option is set, and neither flag. -/
def SetsNothing (e : Entry) : Prop :=
  e.m_mountOptions = [] ∧ e.isMountedRo = false ∧ e.isMountedNoexec = false

theorem setsNothing_iff (e : Entry) : SetsNothing e ↔ e.m_mountOptions = [] := by
  refine ⟨fun h => h.1, fun h => ⟨h, ?_, ?_⟩⟩
  · rw [Entry.isMountedRo, h]
    rfl
  · rw [Entry.isMountedNoexec, h]
    rfl

/-- Where the line does not have the form, the entry is there and nothing is set in it. -/
def MalformedSetsNothing (line : Str) : Prop :=
  ¬ HasForm (c_str line) → ∃ e, Entry.parseMountInfo line = some e ∧ SetsNothing e

/-- A line without the form sets no option exactly where it fits and the text that is taken for
the options is made of the characters between options. -/
theorem malformed_sets_nothing_iff (line : Str) :
    MalformedSetsNothing line ↔
      HasForm (c_str line) ∨
        FitsCopy line ∧ ∀ c ∈ optionPlace (c_str line), c = ',' ∨ c = ')' := by
  by_cases h : HasForm (c_str line)
  · exact iff_of_true (fun hnot => absurd h hnot) (Or.inl h)
  · rw [MalformedSetsNothing, forall_prop_of_true h, or_iff_right h, parseMountInfo_eq,
      ← options_eq_nil_iff, ← setsNothing_iff]
    split
    · simp [*]
    · simp [*]

/-- A mount point with a blank in it. -/
def blankLine : Str := "/dev/block/sda1 on /mnt/sd ro type vfat (rw)".toList

theorem blank_sets_ro :
    ¬ MalformedSetsNothing blankLine ∧
      (ofOutput [blankLine]).map (·.isMountedRo "/mnt/sd".toList) = some true := by
  refine ⟨fun h => ?_, by decide +kernel⟩
  have hform : ¬ HasForm (c_str blankLine) := by
    rintro ⟨fileSystem, mountPoint, devType, options, hopen, -, -, htext⟩
    have hfourth := (formText_words fileSystem mountPoint devType hopen).1
    rw [← htext] at hfourth
    exact absurd hfourth (by decide +kernel)
  obtain ⟨e, hparse, hnothing, -⟩ := h hform
  have hset : (Entry.parseMountInfo blankLine).map (·.m_mountOptions) = some ["ro".toList] := by
    decide +kernel
  rw [hparse, Option.map_some, hnothing] at hset
  cases hset

end MountInfo

end AdbncFs
