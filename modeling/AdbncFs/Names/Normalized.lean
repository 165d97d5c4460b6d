import AdbncFs.Names.Paths

/-!
# Normalized paths and their strings

`DevPath.ofStr` reads a string as an absolute normalized path and undoes `DevPath.str`, so
different paths have different strings. `parent_str` says that `parent` drops the last name,
also when `.` and `..` are names.
-/

namespace AdbncFs

open Text

/-! ## From a string to a path -/

def Name.ofStr (s : Str) : Option Name :=
  if h : s ≠ [] ∧ '/' ∉ s ∧ '\x00' ∉ s ∧ s ≠ ['.'] ∧ s ≠ ['.', '.'] then
    some ⟨s, h.1, h.2.1, h.2.2.1, h.2.2.2.1, h.2.2.2.2⟩
  else none

theorem Name.ofStr_str (n : Name) : Name.ofStr n.str = some n :=
  dif_pos ⟨n.ne_nil, n.noSlash, n.noNul, n.ne_dot, n.ne_dotdot⟩

/-- All values, if there are only values. -/
def allSome {α : Type} : List (Option α) → Option (List α)
  | [] => some []
  | none :: _ => none
  | some a :: rest => (allSome rest).map (a :: ·)

theorem allSome_map {α β : Type} {f : α → β} {g : β → Option α} (h : ∀ a, g (f a) = some a)
    (l : List α) : allSome ((l.map f).map g) = some l := by
  induction l with
  | nil => rfl
  | cons a l ih => rw [List.map_cons, List.map_cons, h, allSome, ih, Option.map_some]

/-- The absolute normalized path that a string is, when it is one. -/
def DevPath.ofStr : Str → Option DevPath
  | ['/'] => some []
  | '/' :: rest => allSome ((rest.splitOn '/').map Name.ofStr)
  | _ => none

theorem DevPath.below_cons (n : Name) (p : DevPath) :
    DevPath.below (n :: p) = '/' :: ['/'].intercalate ((n :: p).map Name.str) := by
  induction p generalizing n with
  | nil => simp [DevPath.below]
  | cons m p ih =>
    have h : DevPath.below (n :: m :: p) = '/' :: n.str ++ DevPath.below (m :: p) := rfl
    rw [h, ih]
    simp [List.intercalate]

theorem DevPath.ofStr_str (p : DevPath) : DevPath.ofStr p.str = some p := by
  cases p with
  | nil => rfl
  | cons n p =>
    have hne : ['/'].intercalate ((n :: p).map Name.str) ≠ [] := by
      have := n.ne_nil
      cases p <;> simp [List.intercalate, this]
    rw [DevPath.str, if_neg (List.cons_ne_nil n p), below_cons, DevPath.ofStr]
    · rw [List.splitOn_intercalate '/' _ (by simp), allSome_map Name.ofStr_str]
      intro l hl
      obtain ⟨m, -, rfl⟩ := List.mem_map.mp hl
      exact m.noSlash
    · simpa using hne

theorem DevPath.str_inj {p q : DevPath} (h : p.str = q.str) : p = q :=
  Option.some.inj ((DevPath.ofStr_str p).symm.trans ((congrArg DevPath.ofStr h).trans
    (DevPath.ofStr_str q)))

/-! ## The parent -/

/-- The text without a slash at its end. -/
def withoutSlash (s : Str) : Str :=
  if s[s.length - 1]? = some '/' then s.take (s.length - 1) else s

/-- The text before the last slash, which is kept where nothing stands before it. A text without
slash is left as it is. -/
def beforeSlash (s : Str) : Str :=
  match rfind s '/' with
  | none => s
  | some uiPos => s.take (if uiPos = 0 then 1 else uiPos)

theorem withoutSlash_concat (s : Str) : withoutSlash (s ++ ['/']) = s := by
  simp [withoutSlash]

theorem withoutSlash_append (front : Str) {name : Str} (hne : name ≠ []) (hname : '/' ∉ name) :
    withoutSlash (front ++ name) = front ++ name := by
  refine if_neg fun h => ?_
  rw [← List.getLast?_eq_getElem?, List.getLast?_append_of_ne_nil _ hne] at h
  exact hname (List.mem_of_getLast? h)

theorem beforeSlash_of_not_mem {name : Str} (h : '/' ∉ name) : beforeSlash name = name := by
  rw [beforeSlash, rfind_of_not_mem h]

theorem beforeSlash_append (front : Str) {name : Str} (h : '/' ∉ name) :
    beforeSlash (front ++ '/' :: name) = if front = [] then ['/'] else front := by
  rw [beforeSlash, rfind_append front h]
  cases front with
  | nil => rfl
  | cons c front => simp

/-- The test for an unchanged path is the last step. -/
theorem parent_eq {s : Str} (hne : s ≠ []) (hroot : s ≠ ['/']) :
    parent s =
      if beforeSlash (withoutSlash s) = s then ['.'] else beforeSlash (withoutSlash s) := by
  have hlen : 0 < s.length := List.length_pos_iff.mpr hne
  have hone : s.length ≠ 1 ∨ s[0]? ≠ some '/' := by
    by_contra hboth
    push Not at hboth
    obtain ⟨c, rfl⟩ := List.length_eq_one_iff.mp hboth.1
    exact hroot (by simpa using hboth.2)
  rw [parent, if_pos hone, if_pos hlen]
  rfl

/-- A component of a path: not empty and without slash. -/
structure Component where
  str : Str
  ne_nil : str ≠ [] := by decide
  noSlash : '/' ∉ str := by decide

/-- The slash at the end of a path, where there is one. -/
def endSlash (fSlash : Bool) : Str := if fSlash then ['/'] else []

theorem Component.withoutSlash_endSlash (front : Str) (c : Component) (fSlash : Bool) :
    withoutSlash (front ++ c.str ++ endSlash fSlash) = front ++ c.str := by
  cases fSlash with
  | true => exact withoutSlash_concat _
  | false => rw [endSlash, if_neg Bool.false_ne_true, List.append_nil,
      withoutSlash_append front c.ne_nil c.noSlash]

/-- Behind a slash the last component is dropped, with or without a slash at the end. -/
theorem Component.parent_append (front : Str) (c : Component) (fSlash : Bool) :
    parent (front ++ '/' :: c.str ++ endSlash fSlash) = if front = [] then ['/'] else front := by
  have hpos : 0 < c.str.length := List.length_pos_iff.mpr c.ne_nil
  have hbefore : beforeSlash (withoutSlash (front ++ '/' :: c.str ++ endSlash fSlash)) =
      if front = [] then ['/'] else front := by
    rw [← beforeSlash_append front c.noSlash, List.append_cons front,
      c.withoutSlash_endSlash (front ++ ['/'])]
  -- what is left is shorter than the path
  have hlen : (if front = [] then ['/'] else front).length <
      (front ++ '/' :: c.str ++ endSlash fSlash).length := by
    rw [List.length_append, List.length_append, List.length_cons]
    split
    · rw [List.length_singleton]
      omega
    · omega
  have hchanged : ¬ (if front = [] then ['/'] else front) =
      front ++ '/' :: c.str ++ endSlash fSlash := fun h => by
    rw [← h] at hlen
    exact Nat.lt_irrefl _ hlen
  rw [parent_eq (by simp) ?_, hbefore, if_neg hchanged]
  intro h
  have := congrArg List.length h
  simp only [List.length_append, List.length_cons, List.length_nil] at this
  omega

/-- An absolute path without empty components and trailing slash, from the root; `.` and `..`
are components as others. -/
abbrev AbsPath := List Component

def AbsPath.below (p : AbsPath) : Str := p.flatMap fun c => '/' :: c.str

def AbsPath.str (p : AbsPath) : Str := if p = [] then ['/'] else p.below

theorem AbsPath.below_eq_nil {p : AbsPath} : p.below = [] ↔ p = [] := by
  cases p with
  | nil => simp [below]
  | cons n p => simp [below]

theorem AbsPath.str_eq_below {p : AbsPath} (h : p ≠ []) : p.str = p.below := if_neg h

theorem AbsPath.str_concat (p : AbsPath) (c : Component) :
    AbsPath.str (p ++ [c]) = p.below ++ '/' :: c.str := by
  rw [AbsPath.str, if_neg (by simp), AbsPath.below, List.flatMap_append]
  simp [AbsPath.below]

/-- `parent` drops the last component, and leaves the root as it is. -/
theorem AbsPath.parent_str (p : AbsPath) : parent p.str = AbsPath.str p.dropLast := by
  rcases List.eq_nil_or_concat p with rfl | ⟨ps, c, rfl⟩
  · decide
  · rw [List.concat_eq_append, List.dropLast_concat, str_concat,
      ← List.append_nil (below ps ++ '/' :: c.str)]
    refine (c.parent_append (below ps) false).trans ?_
    rw [AbsPath.str]
    exact if_congr below_eq_nil rfl rfl

/-- A name is a component. -/
def Name.component (n : Name) : Component := ⟨n.str, n.ne_nil, n.noSlash⟩

theorem DevPath.str_eq_components (p : DevPath) :
    p.str = AbsPath.str (p.map Name.component) := by
  cases p with
  | nil => rfl
  | cons n p =>
    rw [DevPath.str, if_neg (List.cons_ne_nil n p), AbsPath.str, if_neg (by simp), DevPath.below,
      AbsPath.below, List.flatMap_map]
    rfl

theorem DevPath.parent_str (p : DevPath) : parent p.str = DevPath.str p.dropLast := by
  rw [str_eq_components, AbsPath.parent_str, str_eq_components, List.map_dropLast]

end AdbncFs
