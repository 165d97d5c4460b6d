import AdbncFs.Access.Identity
import AdbncFs.Access.MountLookup
import AdbncFs.System.Linking

/-!
# The access decision

What `adbnc_access` answers for a file that exists, when the user and the mounts of the device
are known: the permission bits of the file's mode against the user, and the options `ro` and
`noexec` of the mount that the path belongs to.
-/

namespace AdbncFs

open Text Interaction UserInfo MountInfo

/-! ## Masks -/

theorem permits_or {mode m1 m2 shift : Nat} :
    Permits mode (m1 ||| m2) shift ↔ Permits mode m1 shift ∧ Permits mode m2 shift := by
  simp only [Permits, Nat.testBit_or, Bool.or_eq_true]
  constructor
  · intro h
    exact ⟨fun i hi h1 => h i hi (Or.inl h1), fun i hi h2 => h i hi (Or.inr h2)⟩
  · rintro ⟨h1, h2⟩ i hi (h | h)
    · exact h1 i hi h
    · exact h2 i hi h

theorem or_le_seven {m1 m2 : Nat} (h1 : m1 ≤ 7) (h2 : m2 ≤ 7) : m1 ||| m2 ≤ 7 := by
  have h : m1 ||| m2 < 2 ^ 3 := Nat.or_lt_two_pow (by omega) (by omega)
  omega

theorem or_and_ne_zero {m1 m2 bit : Nat} :
    (m1 ||| m2) &&& bit ≠ 0 ↔ m1 &&& bit ≠ 0 ∨ m2 &&& bit ≠ 0 := by
  rw [Nat.and_or_distrib_right, Ne, Nat.or_eq_zero_iff, not_and_or]

/-! ## The decision -/

/-- The mount that the path belongs to does not stand against the mask. -/
def MountAllows (entries : List Entry) (p : AbsPath) (mask : Nat) : Prop :=
  ∀ e, EntryOf entries p e →
    ¬ (mask &&& W_OK ≠ 0 ∧ "ro".toList ∈ e.m_mountOptions) ∧
      ¬ (mask &&& X_OK ≠ 0 ∧ "noexec".toList ∈ e.m_mountOptions)

/-- Both the mode of the file and the mount allow what the mask asks for. -/
def Granted (user : UserInfo) (entries : List Entry) (p : AbsPath) (mode : Nat) (uid gid : Int)
    (mask : Nat) : Prop :=
  user.access uid gid mode mask = 0 ∧ MountAllows entries p mask

theorem mountAllows_or {entries : List Entry} {p : AbsPath} {m1 m2 : Nat} :
    MountAllows entries p (m1 ||| m2) ↔ MountAllows entries p m1 ∧ MountAllows entries p m2 := by
  simp only [MountAllows, or_and_ne_zero]
  constructor
  · intro h
    refine ⟨fun e he => ?_, fun e he => ?_⟩
    · obtain ⟨hw, hx⟩ := h e he
      exact ⟨fun hc => hw ⟨Or.inl hc.1, hc.2⟩, fun hc => hx ⟨Or.inl hc.1, hc.2⟩⟩
    · obtain ⟨hw, hx⟩ := h e he
      exact ⟨fun hc => hw ⟨Or.inr hc.1, hc.2⟩, fun hc => hx ⟨Or.inr hc.1, hc.2⟩⟩
  · rintro ⟨h1, h2⟩ e he
    obtain ⟨hw1, hx1⟩ := h1 e he
    obtain ⟨hw2, hx2⟩ := h2 e he
    constructor
    · rintro ⟨hm | hm, ho⟩
      · exact hw1 ⟨hm, ho⟩
      · exact hw2 ⟨hm, ho⟩
    · rintro ⟨hm | hm, ho⟩
      · exact hx1 ⟨hm, ho⟩
      · exact hx2 ⟨hm, ho⟩

/-- Two requests together are granted when each of them is. -/
theorem granted_or {user : UserInfo} {entries : List Entry} {p : AbsPath} {mode : Nat}
    {uid gid : Int} {m1 m2 : Nat} (h1 : m1 ≤ 7) (h2 : m2 ≤ 7) :
    Granted user entries p mode uid gid (m1 ||| m2) ↔
      Granted user entries p mode uid gid m1 ∧ Granted user entries p mode uid gid m2 := by
  simp only [Granted, access_eq_zero user uid gid _ (or_le_seven h1 h2),
    access_eq_zero user uid gid _ h1, access_eq_zero user uid gid _ h2, permits_or, mountAllows_or]
  constructor
  · rintro ⟨⟨ha, hb⟩, hc, hd⟩
    exact ⟨⟨ha, hc⟩, hb, hd⟩
  · rintro ⟨⟨ha, hc⟩, hb, hd⟩
    exact ⟨⟨ha, hb⟩, hc, hd⟩

theorem isMountedRo_iff {entries : List Entry} {p : AbsPath} :
    (ofEntries entries).isMountedRo p.str = true ↔
      ∃ e, EntryOf entries p e ∧ "ro".toList ∈ e.m_mountOptions := by
  rw [MountInfo.isMountedRo, Option.any_eq_true]
  simp only [mountPoint_eq_some, Entry.isMountedRo, List.contains_iff_mem]

theorem isMountedNoexec_iff {entries : List Entry} {p : AbsPath} :
    (ofEntries entries).isMountedNoexec p.str = true ↔
      ∃ e, EntryOf entries p e ∧ "noexec".toList ∈ e.m_mountOptions := by
  rw [MountInfo.isMountedNoexec, Option.any_eq_true]
  simp only [mountPoint_eq_some, Entry.isMountedNoexec, List.contains_iff_mem]

theorem mountAllows_iff {entries : List Entry} {p : AbsPath} {mask : Nat} :
    MountAllows entries p mask ↔
      ¬ (mask &&& W_OK ≠ 0 ∧ (ofEntries entries).isMountedRo p.str = true) ∧
        ¬ (mask &&& X_OK ≠ 0 ∧ (ofEntries entries).isMountedNoexec p.str = true) := by
  rw [isMountedRo_iff, isMountedNoexec_iff]
  constructor
  · intro h
    constructor
    · rintro ⟨hm, e, he, ho⟩
      exact (h e he).1 ⟨hm, ho⟩
    · rintro ⟨hm, e, he, ho⟩
      exact (h e he).2 ⟨hm, ho⟩
  · rintro ⟨hw, hx⟩ e he
    exact ⟨fun hc => hw ⟨hc.1, e, he, hc.2⟩, fun hc => hx ⟨hc.1, e, he, hc.2⟩⟩

/-- A reply of the stat command that `doStat` accepts, with its numbers read. -/
structure Decoded (r : Int × List Str) (mode : Nat) (uid gid : Int) : Prop where
  accepted : r.1 = 0
  length : r.2.length = 15
  readMode : stoul (token r.2 3) 16 = .ok mode
  inRange : mode < 2 ^ 32
  readUid : stoi (token r.2 4) = .ok uid
  readGid : stoi (token r.2 5) = .ok gid

/-- The answer for a decoded reply. -/
theorem checkAccess_decoded (tempDir : Str) (user : UserInfo) (entries : List Entry)
    (p : AbsPath) {r : Int × List Str} {mode : Nat} {uid gid : Int} (h : Decoded r mode uid gid)
    {mask : Nat} (hmask : 0 < mask) :
    (Granted user entries p mode uid gid mask →
        checkAccess ⟨tempDir, some user, some (ofEntries entries)⟩ p.str mask r.1 r.2 = 0) ∧
      (¬ Granted user entries p mode uid gid mask →
        checkAccess ⟨tempDir, some user, some (ofEntries entries)⟩ p.str mask r.1 r.2 =
          -EACCES) := by
  have hF : mask ≠ F_OK := Nat.pos_iff_ne_zero.mp hmask
  have hmode : toUnsigned mode = mode := Nat.mod_eq_of_lt h.inRange
  rw [checkAccess, if_neg (not_not_intro h.accepted), if_neg hF, h.readMode, h.readUid,
    h.readGid, Granted, mountAllows_iff]
  dsimp only
  rw [hmode]
  rcases access_zero_or_eacces user uid gid mode mask with ha | ha
  · rw [ha, if_neg (by decide)]
    split
    · rename_i hro
      exact ⟨fun hg => absurd hro hg.2.1, fun _ => rfl⟩
    · split
      · rename_i hnoexec
        exact ⟨fun hg => absurd hnoexec hg.2.2, fun _ => rfl⟩
      · rename_i hro hnoexec
        exact ⟨fun _ => rfl, fun hg => absurd ⟨rfl, hro, hnoexec⟩ hg⟩
  · rw [ha, if_pos (by decide)]
    exact ⟨fun hg => absurd hg.1 (by decide), fun _ => rfl⟩

variable {ε : Type}

/-- The access decision: permission bits, `ro` and `noexec`, and nothing else. -/
theorem access_decision (env : Env ε) (w : World ε) (tempDir : Str) (user : UserInfo)
    (entries : List Entry) (p : AbsPath) {mode : Nat} {uid gid : Int}
    (h : Decoded ((doStat p.str true).run env.handle w).1 mode uid gid) :
    let answer := fun mask => ((adbnc_access ⟨tempDir, some user, some (ofEntries entries)⟩
      p.str mask).run env.handle w).1
    (∀ mask, 0 < mask → mask ≤ 7 →
        (answer mask = 0 ↔ Granted user entries p mode uid gid mask) ∧
          (¬ Granted user entries p mode uid gid mask → answer mask = -EACCES)) ∧
      ∀ m1 m2, 0 < m1 → m1 ≤ 7 → 0 < m2 → m2 ≤ 7 →
        (answer (m1 ||| m2) = 0 ↔ answer m1 = 0 ∧ answer m2 = 0) := by
  intro answer
  have hrun : ∀ mask, answer mask = checkAccess ⟨tempDir, some user, some (ofEntries entries)⟩
      p.str mask ((doStat p.str true).run env.handle w).1.1
      ((doStat p.str true).run env.handle w).1.2 := by
    intro mask
    simp only [answer, adbnc_access, Program.run_bind, Program.run_pure]
  have hanswer : ∀ mask, 0 < mask →
      (answer mask = 0 ↔ Granted user entries p mode uid gid mask) := by
    intro mask hmask
    obtain ⟨hyes, hno⟩ := checkAccess_decoded tempDir user entries p h hmask
    rw [hrun mask]
    constructor
    · intro hzero
      by_contra hnot
      rw [hno hnot] at hzero
      exact absurd hzero (by decide)
    · exact hyes
  refine ⟨fun mask hmask _ => ⟨hanswer mask hmask, fun hnot => ?_⟩, ?_⟩
  · rw [hrun mask]
    exact (checkAccess_decoded tempDir user entries p h hmask).2 hnot
  · intro m1 m2 h1 h1' h2 h2'
    have hor : 0 < m1 ||| m2 := Nat.lt_of_lt_of_le h1 Nat.left_le_or
    rw [hanswer _ hor, hanswer _ h1, hanswer _ h2, granted_or h1' h2']

/-- A file under `/data` that everybody may read and write, asked for by the shell user. -/
theorem access_decision_data :
    let p : AbsPath := [{ str := "data".toList }, { str := "x".toList }]
    let entries : List Entry := [⟨"rootfs".toList, "/".toList, "rootfs".toList, ["ro".toList]⟩,
      ⟨"userdata".toList, "/data".toList, "ext4".toList, ["rw".toList, "noexec".toList]⟩]
    let user : UserInfo := ⟨2000, 2000, [1003]⟩
    let answer := fun mask => ((adbnc_access ⟨"/tmp".toList, some user,
      some (ofEntries entries)⟩ p.str mask).run Env.obliging.handle World.start).1
    (answer W_OK = 0 ↔ Granted user entries p 0x81b6 0 0 W_OK) ∧
      (answer (R_OK ||| W_OK) = 0 ↔ answer R_OK = 0 ∧ answer W_OK = 0) := by
  intro p entries user answer
  have hdecoded : Decoded ((doStat p.str true).run Env.obliging.handle World.start).1
      0x81b6 0 0 := by
    constructor <;> decide +kernel
  obtain ⟨hone, htwo⟩ := access_decision Env.obliging World.start "/tmp".toList user entries p
    hdecoded
  exact ⟨(hone W_OK (by decide) (by decide)).1,
    htwo R_OK W_OK (by decide) (by decide) (by decide) (by decide)⟩

end AdbncFs
