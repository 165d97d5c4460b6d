import AdbncFs.Access.Identity
import AdbncFs.Access.MountLines
import AdbncFs.System.Crashes

/-!
# Asking for the user and the mounts

The part of `initAdbncFs` that fills `pUserInfo` and `pMountInfo`. `queryUserInfo` reports a
success for every single line, also for one that it does not parse or that ends before both
ids are read: then there is no user, or one with an id that was never assigned. Both queries are
undefined for a line that does not fit the array of its parser.
-/

namespace AdbncFs

open Text Interaction

/-! ## The source -/

/-- The mount point that `mount` on the device does not show. -/
def pcSdCardMountEntry : Str :=
  ("sdcardfs on /storage/emulated/legacy type sdcardfs " ++
    "(rw,nosuid,nodev,relatime,uid=1023,gid=1023)").toList

def idArgv : List Str := ["adb".toList, "shell".toList, "busybox id".toList]

def mountArgv : List Str := ["adb".toList, "shell".toList, "busybox mount".toList]

/-- The constructor from a line of `id`. The ids are at first what the memory of the new object
holds. -/
def UserInfo.ofLine (iUid iGid : Int) (pcUserInfo : Str) : Option UserInfo :=
  UserInfo.parseUserInfoString ⟨iUid, iGid, []⟩ pcUserInfo

/-- What `queryUserInfo` returns, and the user it stores, when `id` wrote these lines. -/
def userOfOutput (iUid iGid : Int) (output : Output) : Option (Int × Option UserInfo) :=
  let iRes : Int := if output.length = 1 then 0 else 1
  match output with
  | front :: _ =>
    if iRes = 0 ∧ front.length > 5 ∧ front.head? = some 'u' then do
      let pUserInfo ← UserInfo.ofLine iUid iGid front
      return (iRes, some pUserInfo)
    else return (iRes, none)
  | [] => return (iRes, none)

/-- `iUid` and `iGid` are what the memory of a new user holds. -/
def queryUserInfo (iUid iGid : Int) : ExceptT Crash (Program Sys) (Int × Option UserInfo) := do
  let (output, _) ← execProg idArgv false
  ofExcept (defined (userOfOutput iUid iGid output))

/-- What `queryMountInfo` returns, and the table it stores, when `mount` wrote these lines. -/
def mountsOfOutput (output : Output) : Option (Int × Option MountInfo) := do
  if output.length > 0 then
    let pMountInfo ← MountInfo.ofOutput (output ++ [pcSdCardMountEntry])
    return (0, some pMountInfo)
  else return (1, none)

def queryMountInfo : ExceptT Crash (Program Sys) (Int × Option MountInfo) := do
  let (output, _) ← execProg mountArgv false
  ofExcept (defined (mountsOfOutput output))

/-- The last steps of `initAdbncFs`, once netcat runs on the device: the result and the global
variables. -/
def initAdbncFs.query (pcTempDir : Str) (iUid iGid : Int) :
    ExceptT Crash (Program Sys) (Int × Globals) := do
  let (iRes, pUserInfo) ← queryUserInfo iUid iGid
  if iRes = 0 then
    let (iRes, pMountInfo) ← queryMountInfo
    return (iRes, ⟨pcTempDir, pUserInfo, pMountInfo⟩)
  else return (iRes, ⟨pcTempDir, pUserInfo, none⟩)

/-! ## Which ids are assigned -/

namespace UserInfo

variable (u : UserInfo)

theorem parseGroups_ids (pch save : Str) :
    (u.parseGroups pch save).m_iUid = u.m_iUid ∧ (u.parseGroups pch save).m_iGid = u.m_iGid := by
  rw [parseGroups]
  split <;> exact ⟨rfl, rfl⟩

/-- A line whose first tokens name both ids. -/
def NamesIds (line : Str) (uid gid : Str) : Prop :=
  ∃ rest, strtokAll ['=', ' '] (c_str line) = "uid".toList :: uid :: "gid".toList :: gid :: rest

theorem NamesIds.unique {line uid gid uid' gid' : Str} (h : NamesIds line uid gid)
    (h' : NamesIds line uid' gid') : uid = uid' ∧ gid = gid' := by
  obtain ⟨rest, h⟩ := h
  obtain ⟨rest', h'⟩ := h'
  rw [h] at h'
  have htail := (List.cons.inj h').2
  exact ⟨(List.cons.inj htail).1, (List.cons.inj (List.cons.inj (List.cons.inj htail).2).2).1⟩

/-- Both ids are read from such a line; from another one the group id keeps its value. -/
theorem readTokens_ids (line : Str) :
    (∃ uid gid, NamesIds line uid gid ∧ (u.readTokens (c_str line)).m_iUid = atoi uid ∧
      (u.readTokens (c_str line)).m_iGid = atoi gid) ∨
    ((¬ ∃ uid gid, NamesIds line uid gid) ∧
      (u.readTokens (c_str line)).m_iGid = u.m_iGid) := by
  unfold NamesIds
  rw [readTokens]
  cases h₀ : strtok_r ['=', ' '] (c_str line) with
  | none =>
    rw [strtokAll_of_none h₀]
    exact Or.inr ⟨by simp, rfl⟩
  | some p₀ =>
  obtain ⟨pch, save⟩ := p₀
  rw [strtokAll_of_some h₀]
  dsimp only
  split
  · rename_i hne
    refine Or.inr ⟨?_, (u.parseGroups_ids _ _).2⟩
    rintro ⟨uid, gid, rest, h⟩
    exact hne (List.cons.inj h).1
  rename_i huid
  cases h₁ : strtok_r ['=', ' '] save with
  | none =>
    rw [strtokAll_of_none h₁]
    exact Or.inr ⟨by simp, rfl⟩
  | some p₁ =>
  obtain ⟨uid, save⟩ := p₁
  rw [strtokAll_of_some h₁]
  dsimp only
  cases h₂ : strtok_r ['=', ' '] save with
  | none =>
    rw [strtokAll_of_none h₂]
    exact Or.inr ⟨by simp, rfl⟩
  | some p₂ =>
  obtain ⟨pch', save⟩ := p₂
  rw [strtokAll_of_some h₂]
  dsimp only
  split
  · rename_i hne
    refine Or.inr ⟨?_, (parseGroups_ids _ _ _).2⟩
    rintro ⟨uid, gid, rest, h⟩
    exact hne (List.cons.inj (List.cons.inj (List.cons.inj h).2).2).1
  rename_i hgid
  cases h₃ : strtok_r ['=', ' '] save with
  | none =>
    rw [strtokAll_of_none h₃]
    exact Or.inr ⟨by simp, rfl⟩
  | some p₃ =>
  obtain ⟨gid, save⟩ := p₃
  rw [strtokAll_of_some h₃]
  dsimp only
  obtain rfl := not_not.mp huid
  obtain rfl := not_not.mp hgid
  refine Or.inl ⟨uid, gid, ⟨_, rfl⟩, ?_⟩
  cases h₄ : strtok_r ['=', ' '] save with
  | none => exact ⟨rfl, rfl⟩
  | some p₄ => exact parseGroups_ids _ _ _

end UserInfo

/-! ## Success -/

/-- There is a result, and where it is 0 there is a user, whose ids do not depend on what the memory
of the new object held. -/
def AssignsUser (result : Int → Int → Except Crash (Int × Option UserInfo)) : Prop :=
  ∃ uid gid : Int, ∀ iUid iGid, ∃ r, result iUid iGid = .ok r ∧
    (r.1 = 0 → ∃ user, r.2 = some user ∧ user.m_iUid = uid ∧ user.m_iGid = gid)

/-- The guard in front of the parser. -/
def PassesGuard (line : Str) : Prop := 5 < line.length ∧ line.head? = some 'u'

instance (line : Str) : Decidable (PassesGuard line) :=
  inferInstanceAs (Decidable (5 < line.length ∧ line.head? = some 'u'))

/-- What the parser gets fits its array. -/
def FitsIdOutput (output : Output) : Prop :=
  ∀ line, output = [line] → PassesGuard line → FitsCopy line

/-- The lines of `id` are other than one, or the line passes the guard, fits the array of the parser
and names both ids. -/
def GoodIdOutput (output : Output) : Prop :=
  output.length ≠ 1 ∨ ∃ line, output = [line] ∧ PassesGuard line ∧ FitsCopy line ∧
    ∃ uid gid, UserInfo.NamesIds line uid gid

theorem userOfOutput_other (iUid iGid : Int) {output : Output} (h : output.length ≠ 1) :
    userOfOutput iUid iGid output = some (1, none) := by
  cases output with
  | nil => rfl
  | cons front rest =>
    rw [userOfOutput, if_neg h]
    exact if_neg fun hand => absurd hand.1 (by decide)

/-- The result code, the guard and the array, for a single line. -/
theorem userOfOutput_single (iUid iGid : Int) (line : Str) :
    userOfOutput iUid iGid [line] =
      if PassesGuard line then
        if FitsCopy line then
          some (0, some (UserInfo.readTokens ⟨iUid, iGid, []⟩ (c_str line)))
        else none
      else some (0, none) := by
  have hof : UserInfo.ofLine iUid iGid line = _ := UserInfo.parseUserInfoString_eq _ line
  rw [userOfOutput, List.length_singleton, if_pos rfl, hof]
  by_cases hguard : PassesGuard line
  · rw [if_pos ⟨rfl, hguard⟩, if_pos hguard]
    split <;> rfl
  · rw [if_neg fun h => hguard h.2, if_neg hguard]
    rfl

theorem userOfOutput_fst {iUid iGid : Int} {output : Output} {r : Int × Option UserInfo}
    (h : userOfOutput iUid iGid output = some r) : r.1 = 0 ↔ output.length = 1 := by
  by_cases hone : output.length = 1
  · obtain ⟨line, rfl⟩ := List.length_eq_one_iff.mp hone
    rw [userOfOutput_single] at h
    refine iff_of_true ?_ hone
    split at h
    · split at h
      · exact Option.some.inj h ▸ rfl
      · cases h
    · exact Option.some.inj h ▸ rfl
  · rw [userOfOutput_other iUid iGid hone] at h
    exact iff_of_false (Option.some.inj h ▸ one_ne_zero) hone

theorem exists_userOfOutput_iff (iUid iGid : Int) (output : Output) :
    (∃ r, userOfOutput iUid iGid output = some r) ↔ FitsIdOutput output := by
  by_cases hone : output.length = 1
  · obtain ⟨line, rfl⟩ := List.length_eq_one_iff.mp hone
    rw [userOfOutput_single]
    constructor
    · rintro ⟨r, h⟩ line' hline hguard
      obtain rfl := List.singleton_inj.mp hline
      rw [if_pos hguard] at h
      by_contra hfits
      rw [if_neg hfits] at h
      cases h
    · intro h
      split
      · exact ⟨_, if_pos (h line rfl ‹_›)⟩
      · exact ⟨_, rfl⟩
  · refine iff_of_true ⟨_, userOfOutput_other iUid iGid hone⟩ fun line hline => ?_
    exact absurd (hline ▸ rfl) hone

theorem assigns_userOfOutput_iff (output : Output) :
    AssignsUser (fun iUid iGid => defined (userOfOutput iUid iGid output)) ↔
      GoodIdOutput output := by
  by_cases hone : output.length = 1
  · obtain ⟨line, rfl⟩ := List.length_eq_one_iff.mp hone
    rw [AssignsUser, GoodIdOutput, or_iff_right (not_not_intro hone)]
    simp only [userOfOutput_single]
    constructor
    · rintro ⟨uid, gid, hall⟩
      -- a group id that is not read is another one for another memory
      obtain ⟨r, hr, huser⟩ := hall 0 (gid + 1)
      split at hr
      · rename_i hguard
        split at hr
        · rename_i hfits
          obtain rfl := Except.ok.inj hr
          refine ⟨line, rfl, hguard, hfits, ?_⟩
          obtain ⟨user, huser, -, hgid⟩ := huser rfl
          obtain rfl := Option.some.inj huser
          rcases UserInfo.readTokens_ids ⟨0, gid + 1, []⟩ line with ⟨u, g, hnames, -⟩ | ⟨-, hkept⟩
          · exact ⟨u, g, hnames⟩
          · have hne : gid + 1 = gid := hkept.symm.trans hgid
            omega
        · cases hr
      · obtain rfl := Except.ok.inj hr
        obtain ⟨user, huser, -⟩ := huser rfl
        cases huser
    · rintro ⟨line', hline, hguard, hfits, u, g, hug⟩
      obtain rfl := List.singleton_inj.mp hline
      refine ⟨atoi u, atoi g, fun iUid iGid => ?_⟩
      rw [if_pos hguard, if_pos hfits]
      refine ⟨_, rfl, fun _ => ⟨_, rfl, ?_⟩⟩
      rcases UserInfo.readTokens_ids ⟨iUid, iGid, []⟩ line with ⟨u', g', hnames, hids⟩ | ⟨hno, -⟩
      · obtain ⟨rfl, rfl⟩ := hug.unique hnames
        exact hids
      · exact absurd ⟨u, g, hug⟩ hno
  · refine iff_of_true ⟨0, 0, fun iUid iGid => ⟨(1, none), ?_, fun h => nomatch h⟩⟩ (Or.inl hone)
    dsimp only
    rw [userOfOutput_other iUid iGid hone]
    rfl

theorem mountsOfOutput_eq (output : Output) :
    (mountsOfOutput output).map (·.1) =
      if output = [] then some 1
      else if ∀ line ∈ output, FitsCopy line then some 0 else none := by
  have hfits : (∀ line ∈ output ++ [pcSdCardMountEntry], FitsCopy line) ↔
      ∀ line ∈ output, FitsCopy line := by
    rw [List.forall_mem_append]
    exact and_iff_left fun line hline => List.mem_singleton.mp hline ▸ by decide
  rw [mountsOfOutput, MountInfo.ofOutput_eq]
  by_cases hempty : output = []
  · rw [if_pos hempty, if_neg (by simp [hempty])]
    rfl
  · rw [if_neg hempty, if_pos (List.length_pos_iff.mpr hempty)]
    by_cases hall : ∀ line ∈ output, FitsCopy line
    · rw [if_pos hall, if_pos (hfits.mpr hall)]
      rfl
    · rw [if_neg hall, if_neg (mt hfits.mp hall)]
      rfl

section

variable {ε : Type} (env : Env ε) (pcTempDir : Str) (w : World ε)

/-- The lines that `id` wrote. -/
def idOutput : Output :=
  ((execProg idArgv false).run env.handle w).1.1

/-- The lines that `mount` wrote, after `id` was asked. -/
def mountOutput : Output :=
  ((execProg mountArgv false).run env.handle
    ((execProg idArgv false).run env.handle w).2).1.1

theorem run_queryUserInfo (iUid iGid : Int) :
    (queryUserInfo iUid iGid).run.run env.handle w =
      (defined (userOfOutput iUid iGid (idOutput env w)),
        ((execProg idArgv false).run
          env.handle w).2) := by
  rw [queryUserInfo, run_lift_bind]
  exact run_ofExcept env _ (defined (userOfOutput iUid iGid (idOutput env w)))

theorem run_queryMountInfo :
    (queryMountInfo.run.run env.handle
      ((execProg idArgv false).run
        env.handle w).2).1 = defined (mountsOfOutput (mountOutput env w)) := by
  rw [queryMountInfo, run_lift_bind]
  exact congrArg Prod.fst (run_ofExcept env _ (defined (mountsOfOutput (mountOutput env w))))

/-- What `initAdbncFs` returns and the user it leaves. -/
def queried (iUid iGid : Int) : Except Crash (Int × Option UserInfo) :=
  ((initAdbncFs.query pcTempDir iUid iGid).run.run env.handle w).1.map fun r =>
    (r.1, r.2.pUserInfo)

theorem queried_eq (iUid iGid : Int) :
    queried env pcTempDir w iUid iGid =
      defined (userOfOutput iUid iGid (idOutput env w)) >>= fun r =>
        if r.1 = 0 then
          (defined ((mountsOfOutput (mountOutput env w)).map (·.1))).map fun iRes => (iRes, r.2)
        else .ok r := by
  rw [queried, initAdbncFs.query, ExceptT.run_bind, Program.run_bind, run_queryUserInfo]
  cases userOfOutput iUid iGid (idOutput env w) with
  | none => rfl
  | some r =>
    obtain ⟨iRes, pUserInfo⟩ := r
    dsimp only [defined]
    change _ = if iRes = 0 then _ else Except.ok (iRes, pUserInfo)
    split
    · rw [ExceptT.run_bind, Program.run_bind, run_queryMountInfo]
      cases mountsOfOutput (mountOutput env w) <;> rfl
    · rfl

/-- Where `mount` writes nothing, `initAdbncFs` fails. -/
theorem assigns_queried_of_nil (h : mountOutput env w = []) :
    AssignsUser (queried env pcTempDir w) ↔ FitsIdOutput (idOutput env w) := by
  constructor
  · rintro ⟨uid, gid, hall⟩
    obtain ⟨r, hr, -⟩ := hall 0 0
    rw [queried_eq] at hr
    cases huser : userOfOutput 0 0 (idOutput env w) with
    | some r => exact (exists_userOfOutput_iff 0 0 _).mp ⟨r, huser⟩
    | none =>
      rw [huser] at hr
      cases hr
  · intro hfits
    refine ⟨0, 0, fun iUid iGid => ?_⟩
    obtain ⟨r, huser⟩ := (exists_userOfOutput_iff iUid iGid _).mpr hfits
    rw [queried_eq, huser, mountsOfOutput_eq, if_pos h]
    by_cases hzero : r.1 = 0
    · exact ⟨(1, r.2), if_pos hzero, fun hone => absurd hone one_ne_zero⟩
    · exact ⟨r, if_neg hzero, fun hzero' => absurd hzero' hzero⟩

/-- Where the lines of `mount` fit, the result is that of `queryUserInfo`. -/
theorem queried_of_fits (hne : mountOutput env w ≠ [])
    (hfits : ∀ line ∈ mountOutput env w, FitsCopy line) :
    queried env pcTempDir w =
      fun iUid iGid => defined (userOfOutput iUid iGid (idOutput env w)) := by
  funext iUid iGid
  rw [queried_eq, mountsOfOutput_eq, if_neg hne, if_pos hfits]
  cases userOfOutput iUid iGid (idOutput env w) with
  | none => rfl
  | some r =>
    change (if r.1 = 0 then .ok (0, r.2) else .ok r) = Except.ok r
    split
    · rename_i hzero
      rw [← hzero]
    · rfl

theorem not_assigns_queried (hone : (idOutput env w).length = 1) (hne : mountOutput env w ≠ [])
    (hfits : ¬ ∀ line ∈ mountOutput env w, FitsCopy line) :
    ¬ AssignsUser (queried env pcTempDir w) := by
  rintro ⟨uid, gid, hall⟩
  obtain ⟨r, hr, -⟩ := hall 0 0
  rw [queried_eq, mountsOfOutput_eq, if_neg hne, if_neg hfits] at hr
  cases huser : userOfOutput 0 0 (idOutput env w) with
  | none =>
    rw [huser] at hr
    cases hr
  | some r =>
    have hzero := (userOfOutput_fst huser).mpr hone
    rw [huser] at hr
    change (if r.1 = 0 then _ else _) = _ at hr
    rw [if_pos hzero] at hr
    cases hr

/-- A success of `queryUserInfo` means that the user is known, exactly where the lines of `id`
are good; `initAdbncFs` also fails where `mount` writes nothing. -/
theorem user_query_sound_iff :
    (AssignsUser (fun iUid iGid => ((queryUserInfo iUid iGid).run.run env.handle w).1) ↔
      GoodIdOutput (idOutput env w)) ∧
    (AssignsUser (queried env pcTempDir w) ↔
      (GoodIdOutput (idOutput env w) ∧
        ((idOutput env w).length = 1 → ∀ line ∈ mountOutput env w, FitsCopy line)) ∨
      (FitsIdOutput (idOutput env w) ∧ mountOutput env w = [])) := by
  simp only [run_queryUserInfo]
  refine ⟨assigns_userOfOutput_iff _, ?_⟩
  have hfitsGood : GoodIdOutput (idOutput env w) → FitsIdOutput (idOutput env w) := by
    rintro (hone | ⟨line, hline, -, hfits, -⟩) line' hline' -
    · exact absurd (hline' ▸ rfl) hone
    · exact List.singleton_inj.mp (hline.symm.trans hline') ▸ hfits
  by_cases hmount : mountOutput env w = []
  · rw [assigns_queried_of_nil env pcTempDir w hmount]
    exact ⟨fun h => .inr ⟨h, hmount⟩, fun h => h.elim (fun h => hfitsGood h.1) fun h => h.1⟩
  · rw [or_iff_left fun h => hmount h.2]
    by_cases hfits : ∀ line ∈ mountOutput env w, FitsCopy line
    · rw [queried_of_fits env pcTempDir w hmount hfits, assigns_userOfOutput_iff,
        and_iff_left fun _ => hfits]
    · by_cases hone : (idOutput env w).length = 1
      · exact iff_of_false (not_assigns_queried env pcTempDir w hone hmount hfits)
          fun h => hfits (h.2 hone)
      · refine iff_of_true ⟨0, 0, fun iUid iGid => ⟨(1, none), ?_, fun h => nomatch h⟩⟩
          ⟨Or.inl hone, fun h => absurd h hone⟩
        rw [queried_eq, userOfOutput_other iUid iGid hone]
        rfl

end

/-! ## Without a user -/

/-- Where there is no user, every access to a file that exists is granted, whatever its mode. -/
theorem checkAccess_without_user {g : Globals} (hg : g.pUserInfo = none) (p : Str) (iMask : Nat)
    (tokens : List Str) :
    checkAccess g p iMask 0 tokens = 0 ∨ checkAccess g p iMask 0 tokens = - EIO := by
  rw [checkAccess, if_neg (fun h => h rfl)]
  split
  · exact Or.inl rfl
  · split
    · rw [hg]
      exact Or.inl rfl
    · exact Or.inr rfl

/-- A device without busybox in the path of its shell, and with a file of the root that nobody
else may use. -/
def Env.noBusybox : Env Unit :=
  { Env.obliging with
    shell := fun _ _ => (["/a 4 8 8180 0 0 b301 17 1 0 0 1 1 1 4096".toList], ())
    spawn := fun argv _ _ =>
      if argv.getLast? = some "busybox id".toList then
        (some ("/system/bin/sh: busybox: not found\n".toList, 0), ())
      else (some ("rootfs on / type rootfs (rw)\n".toList, 0), ()) }

theorem user_query_unsound :
    ¬ AssignsUser (fun iUid iGid =>
        ((queryUserInfo iUid iGid).run.run Env.noBusybox.handle World.start).1) ∧
      ((initAdbncFs.query "/tmp".toList 0 0).run.run Env.noBusybox.handle World.start).1.map
          (fun r => (r.1, ((adbnc_access r.2 "/a".toList W_OK).run Env.noBusybox.handle
            World.start).1)) =
        .ok (0, 0) := by
  refine ⟨?_, by decide +kernel⟩
  rintro ⟨uid, gid, hall⟩
  obtain ⟨r, hr, huser⟩ := hall 0 0
  have hquery : ((queryUserInfo 0 0).run.run Env.noBusybox.handle World.start).1.map
      (fun r => (r.1, r.2.isSome)) = .ok (0, false) := by decide +kernel
  dsimp only at hr
  rw [hr] at hquery
  have hfst := congrArg Prod.fst (Except.ok.inj hquery)
  have hsnd : r.2.isSome = false := congrArg Prod.snd (Except.ok.inj hquery)
  obtain ⟨user, hsome, -⟩ := huser hfst
  rw [hsome] at hsnd
  cases hsnd

end AdbncFs
