import Mathlib.Data.List.Forall2
import AdbncFs.Names.Normalized

/-!
# The names of local copies

`makeLocalPath` writes every slash as a dash and leaves the other characters alone, dashes
included. Two device files have the same local copy exactly when their paths are the same
up to the exchange of slashes and dashes (`localCopy_distinct_iff`), as `/a/b` and `/a-b`
are (`localCopy_shared`).

The local copy is a file directly in the temporary directory (`localCopy_in_tempDir`). Its
name is as long as the whole device path, so that a deep path has no usable name although
each of its names is short enough (`localName_fits_iff`, `localName_too_long`).
-/

namespace AdbncFs

open Text

/-- The paths differ at most in that one has a slash where the other has a dash. -/
def SlashDashAlike (p q : Str) : Prop :=
  List.Forall₂ (fun a b => a = b ∨ a ∈ ['/', '-'] ∧ b ∈ ['/', '-']) p q

theorem swapChar_slash_eq_iff {a b : Char} :
    swapChar '/' '-' a = swapChar '/' '-' b ↔ a = b ∨ a ∈ ['/', '-'] ∧ b ∈ ['/', '-'] := by
  by_cases ha : a = '/'
  · by_cases hb : b = '/'
    · simp [ha, hb]
    · simp [swapChar, ha, hb, Ne.symm hb, eq_comm]
  · by_cases hb : b = '/'
    · simp [swapChar, ha, hb]
    · simp only [swapChar, ha, hb, if_false, List.mem_cons, false_or, List.not_mem_nil, or_false]
      constructor
      · exact Or.inl
      · rintro (h | ⟨rfl, rfl⟩)
        · exact h
        · rfl

theorem map_swapChar_eq_iff {p q : Str} :
    p.map (swapChar '/' '-') = q.map (swapChar '/' '-') ↔ SlashDashAlike p q := by
  rw [← List.forall₂_eq_eq_eq, List.forall₂_map_left_iff, List.forall₂_map_right_iff]
  simp only [swapChar_slash_eq_iff, SlashDashAlike]

/-- Two different device files have different local copies exactly when their paths differ
in more than slashes against dashes. -/
theorem localCopy_distinct_iff (dir : Str) (p q : DevPath) :
    (p ≠ q → makeLocalPath dir p.str ≠ makeLocalPath dir q.str) ↔
      (p ≠ q → ¬ SlashDashAlike p.str q.str) := by
  rw [Ne.eq_def (makeLocalPath dir p.str), makeLocalPath_inj, map_swapChar_eq_iff]

/-- The files `/a/b` and `/a-b` are different and have one local copy. -/
theorem localCopy_shared :
    ¬ ∀ (dir : Str) (p q : DevPath), p ≠ q → makeLocalPath dir p.str ≠ makeLocalPath dir q.str := by
  intro h
  refine h "/tmp/adbncfs-XXXXXX/".toList
    [⟨['a'], by decide, by decide, by decide, by decide, by decide⟩,
      ⟨['b'], by decide, by decide, by decide, by decide, by decide⟩]
    [⟨['a', '-', 'b'], by decide, by decide, by decide, by decide, by decide⟩]
    (by decide) ?_
  rw [makeLocalPath_eq, makeLocalPath_eq]
  rfl

/-! ## Where the local copies are -/

theorem slash_not_mem_map_swapChar (p : Str) : '/' ∉ p.map (swapChar '/' '-') := by
  intro h
  obtain ⟨c, -, hc⟩ := List.mem_map.mp h
  rw [swapChar] at hc
  split at hc
  · cases hc
  · rename_i hne
    exact hne hc

/-- The local copy of an absolute path is a file directly in the temporary directory, whatever
the components of the path are. -/
theorem localCopy_in_tempDir (strTempDirPath p : Str) (h : p.head? = some '/') :
    ∃ name, makeLocalPath strTempDirPath p = strTempDirPath ++ name ∧
      name.length = p.length ∧ name.head? = some '-' ∧ '/' ∉ name ∧
      name ≠ [] ∧ name ≠ ['.'] ∧ name ≠ ['.', '.'] ∧
      ∀ d : AbsPath, d ≠ [] → strTempDirPath = d.str ++ ['/'] →
        parent (makeLocalPath strTempDirPath p) = d.str := by
  have hhead : (p.map (swapChar '/' '-')).head? = some '-' := by
    rw [List.head?_map, h]
    rfl
  have hne : p.map (swapChar '/' '-') ≠ [] := by
    intro hnil
    rw [hnil] at hhead
    cases hhead
  have hslash := slash_not_mem_map_swapChar p
  refine ⟨p.map (swapChar '/' '-'), makeLocalPath_eq _ _, List.length_map _, hhead, hslash, hne,
    ?_, ?_, fun d hd hdir => ?_⟩
  · intro hdot
    rw [hdot] at hhead
    cases hhead
  · intro hdots
    rw [hdots] at hhead
    cases hhead
  · have hstr : makeLocalPath strTempDirPath p =
        AbsPath.str (d ++ [⟨p.map (swapChar '/' '-'), hne, hslash⟩]) := by
      rw [makeLocalPath_eq, AbsPath.str_concat, hdir, AbsPath.str_eq_below hd, List.append_assoc]
      rfl
    rw [hstr, AbsPath.parent_str, List.dropLast_concat]

theorem localCopy_in_tempDir_dotdot :
    ∃ name, makeLocalPath "/tmp/adbncfs-XXXXXX/".toList "/../..//etc".toList =
        "/tmp/adbncfs-XXXXXX/".toList ++ name ∧ '/' ∉ name := by
  obtain ⟨name, hname, -, -, hslash, -⟩ :=
    localCopy_in_tempDir "/tmp/adbncfs-XXXXXX/".toList "/../..//etc".toList rfl
  exact ⟨name, hname, hslash⟩

/-! ## How long their names are -/

/-- The limits of `limits.h`. -/
def NAME_MAX : Nat := 255

def PATH_MAX : Nat := 4096

/-- The name of a file, from behind the last slash of its path. -/
def fileName (path : Str) : Str := (path.splitOn '/').getLastD []

theorem fileName_append (dir : Str) {name : Str} (h : '/' ∉ name) :
    fileName (dir ++ '/' :: name) = name := by
  rw [fileName, List.splitOn_append_cons_self, List.splitOn_eq_singleton h]
  simp

theorem fileName_localCopy (pcTempDir p : Str) :
    fileName (makeLocalPath (pcTempDir ++ ['/']) p) = p.map (swapChar '/' '-') := by
  rw [makeLocalPath_eq, List.append_assoc]
  exact fileName_append pcTempDir (slash_not_mem_map_swapChar p)

/-- The name of a local copy is short enough exactly when the whole device path is. -/
theorem localName_fits_iff (pcTempDir p : Str) :
    (fileName (makeLocalPath (pcTempDir ++ ['/']) p)).length ≤ NAME_MAX ↔
      p.length ≤ NAME_MAX := by
  rw [fileName_localCopy, List.length_map]

/-- A path of two names of `n` bytes each. -/
def twoNames (n : Nat) : Str := '/' :: (List.replicate n 'a' ++ '/' :: List.replicate n 'a')

theorem length_twoNames (n : Nat) : (twoNames n).length = 2 * n + 2 := by
  simp only [twoNames, List.length_cons, List.length_append, List.length_replicate]
  omega

theorem splitOn_twoNames (n : Nat) :
    (twoNames n).splitOn '/' = [[], List.replicate n 'a', List.replicate n 'a'] := by
  have hname : '/' ∉ List.replicate n 'a' := fun h => by cases List.eq_of_mem_replicate h
  rw [twoNames, ← List.nil_append ('/' :: _), List.splitOn_append_cons_self,
    List.splitOn_append_cons_self, List.splitOn_eq_singleton hname, List.splitOn_nil]
  rfl

/-- Two names of 200 bytes are fine on the device, and too long together. -/
theorem localName_too_long :
    ¬ ∀ pcTempDir p : Str, p.head? = some '/' → (∀ c ∈ p.splitOn '/', c.length ≤ NAME_MAX) →
      p.length < PATH_MAX →
        (fileName (makeLocalPath (pcTempDir ++ ['/']) p)).length ≤ NAME_MAX := by
  intro h
  have hnames : ∀ c ∈ (twoNames 200).splitOn '/', c.length ≤ NAME_MAX := by
    intro c hc
    rw [splitOn_twoNames] at hc
    simp only [List.mem_cons, List.not_mem_nil, or_false, or_self] at hc
    rcases hc with rfl | rfl
    · exact Nat.zero_le _
    · rw [List.length_replicate]
      decide
  have hlength : (twoNames 200).length < PATH_MAX := by
    rw [length_twoNames]
    decide
  have hfits := h "/tmp/adbncfs-XXXXXX".toList (twoNames 200) rfl hnames hlength
  rw [fileName_localCopy, List.length_map, length_twoNames] at hfits
  exact absurd hfits (by decide)

end AdbncFs
