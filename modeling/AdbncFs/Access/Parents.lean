import AdbncFs.Access.MountLookup

/-!
# The two copies of parent

`parent` of `adbncfs.cpp` and `MountInfo::parent` drop the last name of a path. The test for an
unchanged path compares with the path as it was given, so a single relative name with a slash at
its end loses only that slash (`dropsLastName_iff`).
-/

namespace AdbncFs

open Text

/-- The copy in `mountInfo.cpp`, which has the same lines. -/
def MountInfo.parent (strPath : Str) : Str := AdbncFs.parent strPath

/-- Names from the root or from the current directory; without names that directory itself. -/
def joinNames (fAbsolute : Bool) (names : List Component) : Str :=
  if names = [] then if fAbsolute then ['/'] else ['.']
  else (if fAbsolute then ['/'] else []) ++ ['/'].intercalate (names.map Component.str)

/-- A path as it is written, with single slashes between its names. -/
structure WrittenPath where
  fAbsolute : Bool
  names : List Component
  ne_nil : names ≠ []
  fSlash : Bool

def WrittenPath.str (p : WrittenPath) : Str := joinNames p.fAbsolute p.names ++ endSlash p.fSlash

/-- Both copies give the path of all names but the last, and the same without the slash at the
end. -/
def DropsLastName (p : WrittenPath) : Prop :=
  ∀ f ∈ [AdbncFs.parent, MountInfo.parent],
    f p.str = joinNames p.fAbsolute p.names.dropLast ∧
      f p.str = f (joinNames p.fAbsolute p.names)

/-- The copies have the same values. -/
theorem dropsLastName_of_parent {p : WrittenPath} :
    DropsLastName p ↔
      AdbncFs.parent p.str = joinNames p.fAbsolute p.names.dropLast ∧
        AdbncFs.parent p.str = AdbncFs.parent (joinNames p.fAbsolute p.names) := by
  constructor
  · exact fun h => h _ List.mem_cons_self
  · intro h f hf
    rcases List.mem_cons.mp hf with rfl | hf
    · exact h
    · obtain rfl := List.mem_singleton.mp hf
      exact h

theorem joinNames_singleton (fAbsolute : Bool) (c : Component) :
    joinNames fAbsolute [c] = (if fAbsolute then ['/'] else []) ++ c.str := by
  simp [joinNames]

theorem intercalate_concat {names : List Str} (h : names ≠ []) (name : Str) :
    ['/'].intercalate (names ++ [name]) = ['/'].intercalate names ++ '/' :: name := by
  induction names with
  | nil => exact absurd rfl h
  | cons n names ih =>
    cases names with
    | nil => simp
    | cons m names =>
      have ih := ih (List.cons_ne_nil m names)
      rw [List.cons_append, List.cons_append, List.intercalate_cons_cons, ← List.cons_append, ih,
        List.intercalate_cons_cons]
      simp

theorem joinNames_concat (fAbsolute : Bool) {names : List Component} (h : names ≠ [])
    (c : Component) :
    joinNames fAbsolute (names ++ [c]) = joinNames fAbsolute names ++ '/' :: c.str := by
  rw [joinNames, if_neg (by simp), joinNames, if_neg h, List.map_append, List.map_singleton,
    intercalate_concat (by simpa using h), List.append_assoc]

theorem joinNames_ne_nil (fAbsolute : Bool) {names : List Component} (h : names ≠ []) :
    joinNames fAbsolute names ≠ [] := by
  rcases List.eq_nil_or_concat names with rfl | ⟨ps, c, rfl⟩
  · exact absurd rfl h
  · rw [List.concat_eq_append]
    by_cases hps : ps = []
    · rw [hps, List.nil_append, joinNames_singleton]
      exact List.append_ne_nil_of_right_ne_nil _ c.ne_nil
    · rw [joinNames_concat fAbsolute hps c]
      exact List.append_ne_nil_of_right_ne_nil _ (List.cons_ne_nil _ _)

/-- The last name is dropped where a slash stands before it. -/
theorem parent_joinNames {fAbsolute : Bool} {names : List Component}
    (h : fAbsolute = true ∨ names ≠ []) (c : Component) (fSlash : Bool) :
    parent (joinNames fAbsolute (names ++ [c]) ++ endSlash fSlash) = joinNames fAbsolute names := by
  by_cases hnames : names = []
  · obtain rfl := h.resolve_right (not_not_intro hnames)
    rw [hnames, List.nil_append, joinNames_singleton]
    exact c.parent_append [] fSlash
  · rw [joinNames_concat fAbsolute hnames, c.parent_append, if_neg (joinNames_ne_nil _ hnames)]

/-- A single relative name is its own text before the last slash. -/
theorem parent_single (c : Component) (fSlash : Bool) :
    parent (c.str ++ endSlash fSlash) = if fSlash then c.str else ['.'] := by
  have hbefore : beforeSlash (withoutSlash (c.str ++ endSlash fSlash)) = c.str := by
    have hstrip := c.withoutSlash_endSlash [] fSlash
    rw [List.nil_append] at hstrip
    rw [hstrip, beforeSlash_of_not_mem c.noSlash]
  rw [parent_eq ?_ ?_, hbefore]
  · cases fSlash with
    | true => simp [endSlash]
    | false => simp [endSlash]
  · exact List.append_ne_nil_of_left_ne_nil c.ne_nil _
  · intro h
    obtain ⟨x, t, hx⟩ := List.exists_cons_of_ne_nil c.ne_nil
    rw [hx, List.cons_append] at h
    exact c.noSlash (by rw [hx, (List.cons.inj h).1]; exact List.mem_cons_self)

/-- Of a path without slash at the end, the parent is that of its names. -/
theorem parent_joinNames_bare (fAbsolute : Bool) (names : List Component) :
    parent (joinNames fAbsolute names ++ endSlash false) = parent (joinNames fAbsolute names) :=
  congrArg parent (List.append_nil _)

/-- The last name is dropped by both copies unless it is alone, relative, before a slash and
not `.`. -/
theorem dropsLastName_iff (p : WrittenPath) :
    DropsLastName p ↔
      p.fAbsolute = true ∨ 2 ≤ p.names.length ∨ p.fSlash = false ∨
        p.names.map Component.str = [['.']] := by
  obtain ⟨fAbsolute, names, hne, fSlash⟩ := p
  rw [dropsLastName_of_parent, WrittenPath.str, ← parent_joinNames_bare]
  obtain ⟨ps, c, rfl⟩ := (List.eq_nil_or_concat names).resolve_left hne
  dsimp only
  rw [List.concat_eq_append, List.dropLast_concat]
  by_cases h : fAbsolute = true ∨ ps ≠ []
  · rw [parent_joinNames h, parent_joinNames h]
    refine iff_of_true ⟨rfl, rfl⟩ (h.imp_right fun hps => .inl ?_)
    have := List.length_pos_iff.mpr hps
    rw [List.length_append, List.length_singleton]
    omega
  · -- the name is alone, and the path relative
    push Not at h
    obtain ⟨hrelative, rfl⟩ := h
    obtain rfl := Bool.eq_false_iff.mpr hrelative
    have hname : joinNames false ([] ++ [c]) = c.str := joinNames_singleton false c
    rw [hname, parent_single, parent_single]
    cases fSlash with
    | false => simp [joinNames]
    | true => simp [joinNames]

/-- The parent of `usr/` is `usr`. -/
theorem parent_keeps_usr :
    AdbncFs.parent "usr/".toList = "usr".toList ∧ MountInfo.parent "usr/".toList = "usr".toList ∧
      ¬ DropsLastName ⟨false, [⟨"usr".toList, by decide, by decide⟩], by simp, true⟩ := by
  refine ⟨by decide, by decide, fun h => ?_⟩
  have hparent := (h AdbncFs.parent List.mem_cons_self).1
  revert hparent
  decide

end AdbncFs
