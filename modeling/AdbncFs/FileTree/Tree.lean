import Mathlib.Data.List.Infix

/-!
# Directory trees

A tree of directories and files over any type of names, kept as the list of its paths other
than the root. The operations are those of the usual commands: `mkdir`, `rmdir`, `rm`, the
system call `rename`, `mv`, which moves into an existing directory, and a transfer that
writes a file and makes the directories it lacks. Where the preconditions of a command fail
the tree stays as it is.
-/

namespace FileTree

inductive Node
  | dir
  | file
  deriving DecidableEq

/-- The paths of a tree other than the root. -/
abbrev DirTree (ν : Type) := List (List ν × Node)

variable {ν : Type} [DecidableEq ν]

def get (t : DirTree ν) (p : List ν) : Option Node :=
  if p = [] then some .dir else (t.find? fun e => e.1 = p).map Prod.snd

def has (t : DirTree ν) (p : List ν) : Bool := (get t p).isSome

def set (t : DirTree ν) (p : List ν) (n : Node) : DirTree ν := (p, n) :: t.filter fun e => e.1 ≠ p

def remove (t : DirTree ν) (p : List ν) : DirTree ν := t.filter fun e => e.1 ≠ p

/-- Nothing lies properly below `p`. -/
def bare (t : DirTree ν) (p : List ν) : Bool := t.all fun e => ¬ (p <+: e.1 ∧ e.1 ≠ p)

def mkdir (t : DirTree ν) (p : List ν) : DirTree ν :=
  if has t p = false ∧ get t p.dropLast = some .dir then set t p .dir else t

def rmdir (t : DirTree ν) (p : List ν) : DirTree ν :=
  if get t p = some .dir ∧ bare t p then remove t p else t

def rm (t : DirTree ν) (p : List ν) : DirTree ν := if get t p = some .file then remove t p else t

/-- `touch` makes a file that is not there. -/
def touch (t : DirTree ν) (p : List ν) : DirTree ν :=
  if has t p = false ∧ get t p.dropLast = some .dir then set t p .file else t

/-- The path `q` after `a` has become `d`. -/
def rebase (a d q : List ν) : List ν := if a <+: q then d ++ q.drop a.length else q

def moved (t : DirTree ν) (a d : List ν) : DirTree ν :=
  (remove t d).map fun e => (rebase a d e.1, e.2)

/-- The system call `rename`. -/
def rename (t : DirTree ν) (a d : List ν) : DirTree ν :=
  if a = [] ∨ d = [] ∨ a <+: d ∨ get t d.dropLast ≠ some .dir then t
  else
    match get t a, get t d with
    | none, _ => t
    | some .dir, some .file => t
    | some .file, some .dir => t
    | some .dir, some .dir => if bare t d then moved t a d else t
    | some _, _ => moved t a d

/-- The command `mv` with two paths. -/
def mv (t : DirTree ν) (a b : List ν) : DirTree ν :=
  match get t b, a.getLast? with
  | some .dir, some n => rename t a (b ++ [n])
  | _, _ => rename t a b

/-- Make the directories above `p` that are not there. -/
def makeAbove (t : DirTree ν) (p : List ν) : DirTree ν :=
  p.dropLast.inits.foldl (fun t q => if has t q then t else set t q .dir) t

/-- Write a file to `p`, or into `p` under the name `n` when it is a directory. -/
def push (t : DirTree ν) (p : List ν) (n : ν) : DirTree ν :=
  match get t p with
  | some .dir => if get t (p ++ [n]) = some .dir then t else set t (p ++ [n]) .file
  | some .file => t
  | none => if p.inits.any fun q => get t q = some .file then t else set (makeAbove t p) p .file

/-! ## What exists -/

theorem has_iff {t : DirTree ν} {p : List ν} : has t p = true ↔ p = [] ∨ ∃ e ∈ t, e.1 = p := by
  unfold has get
  split
  · rename_i h
    simp [h]
  · rename_i h
    simp [h]

theorem has_set {t : DirTree ν} {p q : List ν} {n : Node} :
    has (set t p n) q = true ↔ q = p ∨ has t q = true := by
  simp only [has_iff, set, List.mem_cons, List.mem_filter, decide_eq_true_eq]
  constructor
  · rintro (rfl | ⟨e, rfl | ⟨he, -⟩, rfl⟩)
    · exact Or.inr (Or.inl rfl)
    · exact Or.inl rfl
    · exact Or.inr (Or.inr ⟨e, he, rfl⟩)
  · rintro (rfl | rfl | ⟨e, he, rfl⟩)
    · exact Or.inr ⟨_, Or.inl rfl, rfl⟩
    · exact Or.inl rfl
    · by_cases hp : e.1 = p
      · exact Or.inr ⟨(p, n), Or.inl rfl, hp.symm⟩
      · exact Or.inr ⟨e, Or.inr ⟨he, hp⟩, rfl⟩

theorem has_remove {t : DirTree ν} {p q : List ν} (hq : q ≠ p) :
    has (remove t p) q = true ↔ has t q = true := by
  simp only [has_iff, remove, List.mem_filter, decide_eq_true_eq]
  refine or_congr Iff.rfl ⟨?_, ?_⟩
  · rintro ⟨e, ⟨he, -⟩, rfl⟩
    exact ⟨e, he, rfl⟩
  · rintro ⟨e, he, rfl⟩
    exact ⟨e, ⟨he, hq⟩, rfl⟩

theorem has_mkdir {t : DirTree ν} {p q : List ν} (hq : q ≠ p) : has (mkdir t p) q = has t q := by
  unfold mkdir
  split
  · rw [Bool.eq_iff_iff, has_set, or_iff_right hq]
  · rfl

theorem has_rmdir {t : DirTree ν} {p q : List ν} (hq : q ≠ p) : has (rmdir t p) q = has t q := by
  unfold rmdir
  split
  · exact Bool.eq_iff_iff.mpr (has_remove hq)
  · rfl

theorem has_rm {t : DirTree ν} {p q : List ν} (hq : q ≠ p) : has (rm t p) q = has t q := by
  unfold rm
  split
  · exact Bool.eq_iff_iff.mpr (has_remove hq)
  · rfl

theorem has_makeAbove {t : DirTree ν} {p q : List ν} (h : has t q = true) :
    has (makeAbove t p) q = true := by
  unfold makeAbove
  induction p.dropLast.inits generalizing t with
  | nil => exact h
  | cons a l ih =>
    refine ih ?_
    dsimp only
    split
    · exact h
    · exact has_set.mpr (Or.inr h)

/-- A transfer removes nothing. -/
theorem has_push {t : DirTree ν} {p q : List ν} (n : ν) (h : has t q = true) :
    has (push t p n) q = true := by
  unfold push
  split
  · split
    · exact h
    · exact has_set.mpr (Or.inr h)
  · exact h
  · split
    · exact h
    · exact has_set.mpr (Or.inr (has_makeAbove h))

theorem makeAbove_eq {t : DirTree ν} {p : List ν}
    (h : ∀ q, q <+: p.dropLast → has t q = true) : makeAbove t p = t := by
  have hfold : ∀ l : List (List ν), (∀ q ∈ l, has t q = true) →
      l.foldl (fun t q => if has t q then t else set t q .dir) t = t := by
    intro l hl
    induction l with
    | nil => rfl
    | cons a l ih =>
      rw [List.foldl_cons, if_pos (hl a List.mem_cons_self)]
      exact ih fun q hq => hl q (List.mem_cons_of_mem _ hq)
  exact hfold _ fun q hq => h q ((List.mem_inits _ _).mp hq)

/-- A transfer to a path that is not a directory, and has its directories, changes the
existence of no other path. -/
theorem has_push_of_not_dir {t : DirTree ν} {p q : List ν} (n : ν) (hp : get t p ≠ some .dir)
    (habove : ∀ r, r <+: p.dropLast → has t r = true) (hq : q ≠ p) :
    has (push t p n) q = has t q := by
  unfold push
  split
  · rename_i h
    exact absurd h hp
  · rfl
  · split
    · rfl
    · rw [makeAbove_eq habove, Bool.eq_iff_iff, has_set, or_iff_right hq]

/-- Moving a path with nothing below it changes the existence of no third path. -/
theorem has_moved {t : DirTree ν} {a d q : List ν} (ha : bare t a = true) (hqa : q ≠ a)
    (hqd : q ≠ d) : has (moved t a d) q = has t q := by
  have hrebase : ∀ e ∈ t, rebase a d e.1 = q → e.1 = q := by
    intro e he h
    have hbare := List.all_eq_true.mp ha e he
    unfold rebase at h
    split at h
    · rename_i hpre
      have hea : e.1 = a := by
        by_contra hne
        simp [hpre, hne] at hbare
      rw [hea, List.drop_length, List.append_nil] at h
      exact absurd h.symm hqd
    · exact h
  rw [Bool.eq_iff_iff, has_iff, has_iff]
  refine or_congr Iff.rfl ⟨?_, ?_⟩
  · rintro ⟨e, he, rfl⟩
    obtain ⟨e', he', rfl⟩ := List.mem_map.mp he
    have hmem := (List.mem_filter.mp he').1
    exact ⟨e', hmem, hrebase e' hmem rfl⟩
  · rintro ⟨e, he, rfl⟩
    have hpre : ¬ a <+: e.1 := by
      intro hpre
      have hbare := List.all_eq_true.mp ha e he
      simp [hpre, hqa] at hbare
    refine ⟨e, List.mem_map.mpr ⟨e, List.mem_filter.mpr ⟨he, by simpa using hqd⟩, ?_⟩, rfl⟩
    rw [rebase, if_neg hpre]

theorem has_rename {t : DirTree ν} {a d q : List ν} (ha : bare t a = true) (hqa : q ≠ a)
    (hqd : q ≠ d) : has (rename t a d) q = has t q := by
  unfold rename
  split
  · rfl
  · split
    · rfl
    · rfl
    · rfl
    · split
      · exact has_moved ha hqa hqd
      · rfl
    · exact has_moved ha hqa hqd

/-- Renaming a path with nothing below it, not into a directory, changes the existence of
no third path. -/
theorem has_mv {t : DirTree ν} {a b q : List ν} (ha : bare t a = true) (hb : get t b ≠ some .dir)
    (hqa : q ≠ a) (hqb : q ≠ b) : has (mv t a b) q = has t q := by
  unfold mv
  split
  · rename_i h _
    exact absurd h hb
  · exact has_rename ha hqa hqb

end FileTree
