import AdbncFs.Access.MountLines
import AdbncFs.Names.Normalized

/-!
# The lookup of mount points

`mountPoint` goes from a path to its parents until a mount point is found. On an absolute path
the loop ends, and what it finds is the longest mount point that is the path or one of its
ancestors, component by component.
-/

namespace AdbncFs

open Text

theorem AbsPath.str_eq_root {p : AbsPath} : p.str = ['/'] ↔ p = [] := by
  constructor
  · intro h
    rcases List.eq_nil_or_concat p with rfl | ⟨ps, c, rfl⟩
    · rfl
    · rw [List.concat_eq_append, AbsPath.str_concat] at h
      have hlen := congrArg List.length h
      have hpos : 0 < c.str.length := List.length_pos_iff.mpr c.ne_nil
      simp only [List.length_append, List.length_cons, List.length_nil] at hlen
      omega
  · rintro rfl
    rfl

theorem AbsPath.length_le_str (p : AbsPath) : p.length ≤ p.str.length := by
  rcases List.eq_nil_or_concat p with rfl | ⟨ps, c, rfl⟩
  · simp
  · have hbelow : ∀ q : AbsPath, q.length ≤ q.below.length := by
      intro q
      induction q with
      | nil => simp
      | cons d q ih =>
        have hcons : AbsPath.below (d :: q) = '/' :: d.str ++ AbsPath.below q := rfl
        rw [hcons, List.length_append, List.length_cons, List.length_cons]
        omega
    rw [AbsPath.str_eq_below (by simp)]
    exact hbelow _

namespace MountInfo

/-- The loop of `mountPoint` ends with the given result: there is an entry for the path, the
root is reached without one, or the loop goes on with the parent. -/
inductive Returns (m : MountInfo) : Str → Option Entry → Prop
  | found {strParent : Str} {e : Entry} (h : m.findMountPointEntry strParent = some e) :
    Returns m strParent (some e)
  | root (h : m.findMountPointEntry ['/'] = none) : Returns m ['/'] none
  | next {strParent : Str} {r : Option Entry} (h : m.findMountPointEntry strParent = none)
    (hroot : strParent ≠ ['/']) (hr : Returns m (parent strParent) r) : Returns m strParent r

theorem Returns.unique {m : MountInfo} {s : Str} {r r' : Option Entry} (h : Returns m s r)
    (h' : Returns m s r') : r = r' := by
  induction h with
  | found h =>
    cases h' with
    | found h2 => rw [← h, ← h2]
    | root h2 => rw [h] at h2; cases h2
    | next h2 => rw [h] at h2; cases h2
  | root h =>
    cases h' with
    | found h2 => rw [h] at h2; cases h2
    | root => rfl
    | next _ hroot => exact absurd rfl hroot
  | next h hroot _ ih =>
    cases h' with
    | found h2 => rw [h] at h2; cases h2
    | root => exact absurd rfl hroot
    | next _ _ h2 => exact ih h2

theorem Returns.of_parent {m : MountInfo} {s : Str} {r : Option Entry} (h : Returns m s r)
    (hfind : m.findMountPointEntry s = none) (hroot : s ≠ ['/']) : Returns m (parent s) r := by
  cases h with
  | found h2 => rw [hfind] at h2; cases h2
  | root => exact absurd rfl hroot
  | next _ _ h2 => exact h2

/-- One turn for each component is enough. -/
theorem returns_loop (m : MountInfo) (p : AbsPath) {fuel : Nat} (h : p.length < fuel) :
    Returns m p.str (mountPoint.loop m fuel p.str) := by
  induction fuel generalizing p with
  | zero => omega
  | succ fuel ih =>
    rw [mountPoint.loop]
    cases hfind : m.findMountPointEntry p.str with
    | some e => exact .found hfind
    | none =>
      dsimp only
      by_cases hp : p = []
      · subst hp
        rw [if_pos (AbsPath.str_eq_root.mpr rfl)]
        exact .root hfind
      · have hroot : p.str ≠ ['/'] := fun hs => hp (AbsPath.str_eq_root.mp hs)
        have hlen : p.dropLast.length < fuel := by
          have := List.length_pos_iff.mpr hp
          rw [List.length_dropLast]
          omega
        rw [if_neg hroot, AbsPath.parent_str]
        refine .next hfind hroot ?_
        rw [AbsPath.parent_str]
        exact ih p.dropLast hlen

theorem returns_mountPoint (m : MountInfo) (p : AbsPath) :
    Returns m p.str (m.mountPoint p.str) := by
  have hlen := p.length_le_str
  exact returns_loop m p (by omega)

/-- There is an entry whose mount point is the path `q`. -/
def Mounted (entries : List Entry) (q : AbsPath) : Prop :=
  ∃ e ∈ entries, e.m_strMountPoint = q.str

/-- `q` is the longest mount point that is `p` or an ancestor of it. -/
structure LongestMount (entries : List Entry) (p q : AbsPath) : Prop where
  ancestor : q <+: p
  mounted : Mounted entries q
  longest : ∀ q', q' <+: p → Mounted entries q' → q'.length ≤ q.length

theorem LongestMount.unique {entries : List Entry} {p q q' : AbsPath}
    (h : LongestMount entries p q) (h' : LongestMount entries p q') : q = q' := by
  have hle : q.length ≤ q'.length := h'.longest q h.ancestor h.mounted
  have hge : q'.length ≤ q.length := h.longest q' h'.ancestor h'.mounted
  have hpre : q <+: q' := List.prefix_of_prefix_length_le h.ancestor h'.ancestor hle
  exact hpre.eq_of_length (by omega)

theorem mounted_iff {entries : List Entry} {q : AbsPath} :
    Mounted entries q ↔ ((ofEntries entries).findMountPointEntry q.str).isSome = true := by
  rw [lookup_ofEntries, List.find?_isSome]
  simp only [Mounted, decide_eq_true_eq]

/-- What the loop returns on a path, from the root downwards. -/
theorem Returns.longest {entries : List Entry} {p : AbsPath} {r : Option Entry}
    (h : Returns (ofEntries entries) p.str r) :
    (∃ q, LongestMount entries p q ∧ r = (ofEntries entries).findMountPointEntry q.str) ∨
      (r = none ∧ ∀ q, q <+: p → ¬ Mounted entries q) := by
  induction p using List.reverseRecOn generalizing r with
  | nil =>
    cases hfind : (ofEntries entries).findMountPointEntry ['/'] with
    | some e =>
      refine Or.inl ⟨[], ⟨List.prefix_rfl, ?_, ?_⟩, ?_⟩
      · exact mounted_iff.mpr (by rw [show AbsPath.str [] = ['/'] from rfl, hfind]; rfl)
      · intro q' hq' _
        exact hq'.length_le
      · exact h.unique (.found (hfind.trans rfl)) |>.trans hfind.symm
    | none =>
      refine Or.inr ⟨h.unique (.root hfind), ?_⟩
      intro q hq hm
      rw [List.prefix_nil.mp hq, mounted_iff, show AbsPath.str [] = ['/'] from rfl, hfind] at hm
      cases hm
  | append_singleton ps c ih =>
    have hroot : AbsPath.str (ps ++ [c]) ≠ ['/'] := fun hs => by
      simpa using AbsPath.str_eq_root.mp hs
    cases hfind : (ofEntries entries).findMountPointEntry (AbsPath.str (ps ++ [c])) with
    | some e =>
      refine Or.inl ⟨ps ++ [c], ⟨List.prefix_rfl, mounted_iff.mpr (by rw [hfind]; rfl), ?_⟩, ?_⟩
      · intro q' hq' _
        exact hq'.length_le
      · exact (h.unique (.found hfind)).trans hfind.symm
    | none =>
      -- no entry for the path itself, so the prefixes that matter are those of its parent
      have hself : ¬ Mounted entries (ps ++ [c]) := by
        rw [mounted_iff, hfind]
        simp
      have hnext : Returns (ofEntries entries) (AbsPath.str ps) r := by
        have hparent : parent (AbsPath.str (ps ++ [c])) = AbsPath.str ps := by
          rw [AbsPath.parent_str, List.dropLast_concat]
        exact hparent ▸ h.of_parent hfind hroot
      have hpre : ∀ q, q <+: ps ++ [c] → Mounted entries q → q <+: ps := by
        intro q hq hm
        rcases List.prefix_concat_iff.mp hq with rfl | hq
        · exact absurd hm hself
        · exact hq
      rcases ih hnext with ⟨q, hq, hr⟩ | ⟨hr, hnone⟩
      · refine Or.inl ⟨q, ⟨hq.ancestor.trans (List.prefix_append ps [c]), hq.mounted, ?_⟩, hr⟩
        intro q' hq' hm
        exact hq.longest q' (hpre q' hq' hm) hm
      · exact Or.inr ⟨hr, fun q hq hm => hnone q (hpre q hq hm) hm⟩

/-- `e` is the entry of the longest mount point that is `p` or an ancestor of it. -/
def EntryOf (entries : List Entry) (p : AbsPath) (e : Entry) : Prop :=
  ∃ q, LongestMount entries p q ∧ entries.find? (·.m_strMountPoint = q.str) = some e

theorem mountPoint_eq_some {entries : List Entry} {p : AbsPath} {e : Entry} :
    (ofEntries entries).mountPoint p.str = some e ↔ EntryOf entries p e := by
  have hret := returns_mountPoint (ofEntries entries) p
  constructor
  · intro he
    rcases hret.longest with ⟨q, hq, hr⟩ | ⟨hr, -⟩
    · rw [lookup_ofEntries, he] at hr
      exact ⟨q, hq, hr.symm⟩
    · rw [he] at hr
      cases hr
  · rintro ⟨q, hq, he⟩
    rcases hret.longest with ⟨q', hq', hr⟩ | ⟨-, hnone⟩
    · rw [hr, lookup_ofEntries, ← hq.unique hq', he]
    · exact absurd hq.mounted (hnone q hq.ancestor)

/-- The loop ends for every table and every absolute path. It returns the entry of the longest
mount point that is the path or an ancestor, and none exactly when there is no such one. -/
theorem mountPoint_longest (entries : List Entry) (p : AbsPath) :
    (∀ r, Returns (ofEntries entries) p.str r ↔ r = (ofEntries entries).mountPoint p.str) ∧
      (∀ e, (ofEntries entries).mountPoint p.str = some e ↔ EntryOf entries p e) ∧
      ((ofEntries entries).mountPoint p.str = none ↔ ∀ q, q <+: p → ¬ Mounted entries q) := by
  have hret := returns_mountPoint (ofEntries entries) p
  refine ⟨?_, fun e => mountPoint_eq_some, ?_⟩
  · intro r
    constructor
    · exact fun h => h.unique hret
    · rintro rfl
      exact hret
  · constructor
    · intro hn q hq hm
      rcases hret.longest with ⟨q', hq', hr⟩ | ⟨-, hnone⟩
      · have hsome := mounted_iff.mp hq'.mounted
        rw [← hr, hn] at hsome
        cases hsome
      · exact hnone q hq hm
    · intro hnone
      rcases hret.longest with ⟨q, hq, -⟩ | ⟨hr, -⟩
      · exact absurd hq.mounted (hnone q hq.ancestor)
      · exact hr

example : (ofEntries [⟨"dev".toList, "/data".toList, "ext4".toList, []⟩]).mountPoint
    "/database/x".toList |>.isNone := by decide

end MountInfo

end AdbncFs
