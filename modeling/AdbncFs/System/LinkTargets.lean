import AdbncFs.FileTree.Lexical
import AdbncFs.Names.Normalized
import AdbncFs.System.Linking
import AdbncFs.Text.Tokens

/-!
# Targets of links

The device prints the target of a link as an absolute path, and `adbnc_readlink` makes it a
path relative to the directory of the link. Resolved from there it leads to the target; only
the root, as the target of a link in the root, becomes the empty text (`readlink_relative_iff`).
-/

namespace AdbncFs

open Text Interaction FileTree

/-! ## Resolving a path by its text -/

/-- The moves of a path: an empty component and `.` stay where they are. -/
def lexicalMoves (s : Str) : List (Move Str) :=
  (s.splitOn '/').filterMap fun c =>
    if c = [] ∨ c = ['.'] then none else some (if c = ['.', '.'] then .up else .into c)

/-- The path from the root that `s` denotes, seen from the directory `dir`. -/
def resolve (dir : List Str) (s : Str) : List Str :=
  walk (if s.head? = some '/' then [] else dir) (lexicalMoves s)

/-- The names of a path. -/
def DevPath.names (p : DevPath) : List Str := p.map Name.str

theorem lexicalMoves_dotdot (s : Str) :
    lexicalMoves ("../".toList ++ s) = .up :: lexicalMoves s := by
  have hsplit : ("../".toList ++ s).splitOn '/' = [['.', '.']] ++ s.splitOn '/' :=
    List.splitOn_append_cons_self ['.', '.'] s
  rw [lexicalMoves, hsplit]
  rfl

theorem lexicalMoves_dotdots (k : Nat) (s : Str) :
    lexicalMoves ((List.replicate k "../".toList).flatten ++ s) =
      List.replicate k .up ++ lexicalMoves s := by
  induction k with
  | zero => rfl
  | succ k ih =>
    rw [List.replicate_succ, List.flatten_cons, List.append_assoc, lexicalMoves_dotdot, ih]
    rfl

/-- The names of a path are moves downwards. -/
theorem lexicalMoves_names {t : DevPath} (h : t ≠ []) :
    lexicalMoves (['/'].intercalate t.names) = t.names.map .into := by
  have hslash : ∀ c ∈ t.names, '/' ∉ c := by
    intro c hc
    obtain ⟨n, -, rfl⟩ := List.mem_map.mp hc
    exact n.noSlash
  rw [lexicalMoves, List.splitOn_intercalate '/' hslash (by simpa [DevPath.names] using h),
    DevPath.names, List.filterMap_map, List.map_map]
  rw [← List.filterMap_eq_map]
  refine List.filterMap_congr fun n _ => ?_
  simp [n.ne_nil, n.ne_dot, n.ne_dotdot]

/-! ## The text that is stored -/

theorem DevPath.str_eq_names {t : DevPath} (h : t ≠ []) :
    t.str = '/' :: ['/'].intercalate t.names := by
  obtain ⟨n, t, rfl⟩ := List.exists_cons_of_ne_nil h
  rw [DevPath.str, if_neg h, DevPath.below_cons, DevPath.names]

/-- One slash for each name, and one for the root. -/
theorem count_slash_str (p : DevPath) : p.str.count '/' - 1 = p.length - 1 := by
  have hbelow : ∀ q : DevPath, q.below.count '/' = q.length := by
    intro q
    induction q with
    | nil => rfl
    | cons n q ih =>
      have hcons : DevPath.below (n :: q) = '/' :: (n.str ++ DevPath.below q) := rfl
      rw [hcons, List.count_cons_self, List.count_append, List.count_eq_zero.mpr n.noSlash, ih,
        Nat.zero_add, List.length_cons]
  rw [DevPath.str]
  split
  · rename_i h
    subst h
    rfl
  · rw [hbelow]

theorem relativeTarget_str (p t : DevPath) :
    relativeTarget p.str t.str =
      (List.replicate (p.length - 1) "../".toList).flatten ++ ['/'].intercalate t.names := by
  rw [← count_slash_str]
  by_cases h : t = []
  · subst h
    rfl
  · rw [DevPath.str_eq_names h]
    rfl

theorem not_mem_relativeTarget (p t : DevPath) {c : Char} (hdot : c ≠ '.') (hslash : c ≠ '/')
    (h : ∀ n : Name, c ∉ n.str) : c ∉ relativeTarget p.str t.str := by
  rw [relativeTarget_str, List.mem_append, not_or]
  constructor
  · rw [List.mem_flatten]
    rintro ⟨s, hs, hc⟩
    rw [List.eq_of_mem_replicate hs] at hc
    simp [hdot, hslash] at hc
  · refine not_mem_intercalate hslash fun s hs => ?_
    obtain ⟨n, -, rfl⟩ := List.mem_map.mp hs
    exact h n

theorem head_relativeTarget (p t : DevPath) :
    (relativeTarget p.str t.str).head? ≠ some '/' := by
  rw [relativeTarget_str]
  cases p.length - 1 with
  | succ k => simp [List.replicate_succ]
  | zero =>
    cases t with
    | nil => simp [DevPath.names]
    | cons n t =>
      obtain ⟨c, cs, hc⟩ := List.exists_cons_of_ne_nil n.ne_nil
      have hslash := n.noSlash
      rw [hc] at hslash
      have hne : c ≠ '/' := fun h => hslash (h ▸ List.mem_cons_self)
      cases t with
      | nil => simp [DevPath.names, hc, hne]
      | cons m t => simp [DevPath.names, List.intercalate_cons_cons, hc, hne]

/-- Only the root, as the target of a link in the root, becomes the empty text. -/
theorem relativeTarget_eq_nil (p t : DevPath) :
    relativeTarget p.str t.str = [] ↔ t = [] ∧ p.length < 2 := by
  rw [relativeTarget_str, List.append_eq_nil_iff]
  constructor
  · rintro ⟨hups, hnames⟩
    constructor
    · by_contra ht
      obtain ⟨n, t, rfl⟩ := List.exists_cons_of_ne_nil ht
      have hne := n.ne_nil
      cases t <;> simp [DevPath.names, List.intercalate, hne] at hnames
    · by_contra hp
      obtain ⟨k, hk⟩ : ∃ k, p.length - 1 = k + 1 := ⟨p.length - 2, by omega⟩
      rw [hk, List.replicate_succ] at hups
      simp at hups
  · rintro ⟨rfl, hp⟩
    rw [Nat.sub_eq_zero_of_le (by omega)]
    exact ⟨rfl, rfl⟩

/-- Seen from the directory of the link, the stored text denotes the target. -/
theorem resolve_relativeTarget (p t : DevPath) :
    resolve (DevPath.names p.dropLast) (relativeTarget p.str t.str) = t.names := by
  have hdepth : p.length - 1 = (DevPath.names p.dropLast).length := by
    rw [DevPath.names, List.length_map, List.length_dropLast]
  have hmoves : lexicalMoves (['/'].intercalate t.names) = t.names.map .into := by
    by_cases h : t = []
    · subst h
      rfl
    · exact lexicalMoves_names h
  rw [resolve, if_neg (head_relativeTarget p t), relativeTarget_str, lexicalMoves_dotdots, hmoves,
    hdepth, walk_over_root]

/-! ## The call -/

/-- The buffer after the call: the text and a NUL over what it held before. -/
def bufferAfter (pcBuf : Str) : Option Str → Str
  | none => pcBuf
  | some strRes => strRes ++ '\x00' :: pcBuf.drop (strRes.length + 1)

/-- A result 0 comes with a relative path to `t` in the buffer, and a path that does not fit
with an error and the buffer as it was. -/
def LinkRead (p t : DevPath) (pcBuf : Str) (r : Int × Option Str) : Prop :=
  (r.1 = 0 → ∃ s rest, bufferAfter pcBuf r.2 = s ++ '\x00' :: rest ∧ '\x00' ∉ s ∧ s ≠ [] ∧
    s.head? ≠ some '/' ∧ s.length < pcBuf.length ∧
    (bufferAfter pcBuf r.2).length = pcBuf.length ∧
    resolve (DevPath.names p.dropLast) s = t.names) ∧
  (pcBuf.length ≤ (relativeTarget p.str t.str).length →
    r.1 < 0 ∧ bufferAfter pcBuf r.2 = pcBuf)

section

variable {ε : Type} (env : Env ε)

theorem run_readlink (p front : Str) (iSize : Nat) (w : World ε)
    (h : ((readLinkOutput p).run env.handle w).1.head? = some front) :
    ((adbnc_readlink p iSize).run env.handle w).1 =
      if (relativeTarget p front).length ≥ iSize then (-ENOSYS, none)
      else (0, some (relativeTarget p front)) := by
  rw [adbnc_readlink, Program.run_bind]
  cases hout : ((readLinkOutput p).run env.handle w).1 with
  | nil =>
    rw [hout] at h
    cases h
  | cons line rest =>
    rw [hout] at h
    obtain rfl := Option.some.inj h
    dsimp only
    rw [Program.run_ite]
    split <;> rfl

/-- A link is read back as it should be, but for a link in the root that leads to the root. -/
theorem readlink_relative_iff (p t : DevPath) (pcBuf : Str) (w : World ε)
    (h : ((readLinkOutput p.str).run env.handle w).1.head? = some t.str) :
    LinkRead p t pcBuf ((adbnc_readlink p.str pcBuf.length).run env.handle w).1 ↔
      t ≠ [] ∨ 2 ≤ p.length ∨ pcBuf = [] := by
  rw [run_readlink env p.str t.str pcBuf.length w h, LinkRead]
  have hcond : (t ≠ [] ∨ 2 ≤ p.length ∨ pcBuf = []) ↔
      relativeTarget p.str t.str ≠ [] ∨ pcBuf = [] := by
    rw [← or_assoc]
    refine or_congr_left ?_
    rw [Ne, Ne, relativeTarget_eq_nil, not_and_or, Nat.not_lt]
  rw [hcond]
  by_cases hfit : pcBuf.length ≤ (relativeTarget p.str t.str).length
  · rw [if_pos hfit]
    refine iff_of_true ⟨fun h0 => absurd h0 (by decide), fun _ => ⟨by decide, rfl⟩⟩ ?_
    by_cases hnil : relativeTarget p.str t.str = []
    · rw [hnil] at hfit
      exact Or.inr (List.length_eq_zero_iff.mp (Nat.le_zero.mp hfit))
    · exact Or.inl hnil
  · rw [if_neg hfit]
    have hbuf : pcBuf ≠ [] := by
      rintro rfl
      exact hfit (Nat.zero_le _)
    rw [or_iff_left hbuf]
    have hnul : '\x00' ∉ relativeTarget p.str t.str :=
      not_mem_relativeTarget p t (by decide) (by decide) fun n => n.noNul
    constructor
    · rintro ⟨hread, -⟩
      obtain ⟨s, rest, hs, hsnul, hne, -⟩ := hread rfl
      have hsame := congrArg c_str hs
      rw [bufferAfter, c_str_terminated hnul, c_str_terminated hsnul] at hsame
      rw [hsame]
      exact hne
    · intro hne
      refine ⟨fun _ => ⟨_, _, rfl, hnul, hne, head_relativeTarget p t, Nat.lt_of_not_le hfit, ?_,
        resolve_relativeTarget p t⟩, fun hle => absurd hle hfit⟩
      rw [bufferAfter, List.length_append, List.length_cons, List.length_drop]
      omega

end

/-- The link `/p/q` to the file `/r/s`. -/
def exampleLink : DevPath :=
  [⟨['p'], by decide, by decide, by decide, by decide, by decide⟩,
    ⟨['q'], by decide, by decide, by decide, by decide, by decide⟩]

def exampleTarget : DevPath :=
  [⟨['r'], by decide, by decide, by decide, by decide, by decide⟩,
    ⟨['s'], by decide, by decide, by decide, by decide, by decide⟩]

theorem readlink_relative_example :
    LinkRead exampleLink exampleTarget (List.replicate 16 'x')
      ((adbnc_readlink exampleLink.str 16).run (Env.replying [exampleTarget.str]).handle
        World.start).1 :=
  (readlink_relative_iff (Env.replying [exampleTarget.str]) exampleLink exampleTarget
    (List.replicate 16 'x') World.start rfl).mpr (Or.inl (by decide))

/-- A link in the root that leads to the root is read as the empty text. -/
theorem readlink_root_empty :
    ((adbnc_readlink "/l".toList 16).run (Env.replying ["/".toList]).handle World.start).1 =
        (0, some []) ∧
      ¬ LinkRead [⟨['l'], by decide, by decide, by decide, by decide, by decide⟩] []
        (List.replicate 16 'x')
        ((adbnc_readlink "/l".toList 16).run (Env.replying ["/".toList]).handle World.start).1 := by
  have hrun : ((adbnc_readlink "/l".toList 16).run (Env.replying ["/".toList]).handle
      World.start).1 = (0, some []) := by decide +kernel
  refine ⟨hrun, fun h => ?_⟩
  rw [hrun] at h
  obtain ⟨s, rest, hs, hnul, hne, -⟩ := h.1 rfl
  have hsame := congrArg c_str hs
  rw [c_str_terminated hnul] at hsame
  exact hne hsame.symm

end AdbncFs
