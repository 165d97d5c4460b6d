import AdbncFs.Access.UserInfo
import AdbncFs.Text.Printing
import Mathlib.Data.Nat.Bitwise

/-!
# The user from the output of `id`

A line of the applet `id` and the user that `parseUserInfoString` reads from it. The group
list is read to the end of the line, so that the pieces of a security context behind its
first comma count as groups too.
-/

namespace AdbncFs

open Text

namespace UserInfo

/-! ## The line -/

/-- The name behind an id. -/
structure IdName where
  str : Str
  noBlank : ' ' ∉ str := by decide
  noEqual : '=' ∉ str := by decide
  noComma : ',' ∉ str := by decide
  noOpen : '(' ∉ str := by decide
  noClose : ')' ∉ str := by decide
  noNul : '\x00' ∉ str := by decide

/-- An id, with or without its name. -/
structure NamedId where
  id : Nat
  name : Option IdName
  inRange : id < 2 ^ 31 := by decide

/-- A security context. -/
structure Label where
  str : Str
  noBlank : ' ' ∉ str := by decide
  noNul : '\x00' ∉ str := by decide

/-- What `id` prints: the list of groups is not empty when it is there. -/
structure IdLine where
  uid : NamedId
  gid : NamedId
  groups : Option {gs : List NamedId // gs ≠ []}
  context : Option Label

namespace NamedId

def nameText (i : NamedId) : Str :=
  match i.name with
  | none => []
  | some name => '(' :: name.str ++ [')']

def text (i : NamedId) : Str := Nat.toDigits 10 i.id ++ i.nameText

end NamedId

namespace IdLine

def contextText (l : IdLine) : Str :=
  match l.context with
  | none => []
  | some label => " context=".toList ++ label.str

/-- What stands behind `groups=`. -/
def groupText (l : IdLine) (gs : List NamedId) : Str :=
  [','].intercalate (gs.map (·.text)) ++ l.contextText

/-- What stands behind the group id. -/
def restText (l : IdLine) : Str :=
  match l.groups with
  | none => l.contextText
  | some gs => " groups=".toList ++ l.groupText gs.1

def text (l : IdLine) : Str :=
  "uid=".toList ++ (l.uid.text ++ (" gid=".toList ++ (l.gid.text ++ l.restText)))

/-- The ids of the group list. -/
def groupIds (l : IdLine) : List Int :=
  match l.groups with
  | none => []
  | some gs => gs.1.map fun g => (g.id : Int)

/-- What the pieces of the context behind its first comma are as numbers, where the line
has a group list. -/
def strayGroups (l : IdLine) : List Int :=
  match l.groups, l.context with
  | some _, some label => ((label.str.splitOn ',').tail.filter (· ≠ [])).map atoi
  | _, _ => []

end IdLine

/-! ## Reading it -/

theorem NamedId.plain {i : NamedId} {c : Char} (hdigit : ∀ d < 16, Nat.digitChar d ≠ c)
    (hopen : c ≠ '(') (hclose : c ≠ ')') (hname : ∀ name : IdName, c ∉ name.str) :
    c ∉ i.text := by
  have hclean : Clean [c] (Nat.toDigits 10 i.id) :=
    clean_toDigits (by decide) (by decide) i.id fun d hd h =>
      hdigit d hd (List.mem_singleton.mp h)
  have hid : c ∉ Nat.toDigits 10 i.id := fun hc =>
    hclean.not_mem c hc (List.mem_singleton_self c)
  rw [NamedId.text, List.mem_append, not_or, NamedId.nameText]
  refine ⟨hid, ?_⟩
  cases i.name with
  | none => simp
  | some name => simp [hopen, hclose, hname name]

theorem NamedId.text_ne_nil (i : NamedId) : i.text ≠ [] := by
  simp [NamedId.text]

theorem NamedId.noComma (i : NamedId) : ',' ∉ i.text :=
  NamedId.plain (by decide) (by decide) (by decide) fun name => name.noComma

theorem NamedId.noNul (i : NamedId) : '\x00' ∉ i.text :=
  NamedId.plain (by decide) (by decide) (by decide) fun name => name.noNul

theorem NamedId.clean (i : NamedId) : Clean ['=', ' '] i.text where
  ne_nil := i.text_ne_nil
  not_mem := by
    intro c hc h
    simp only [List.mem_cons, List.not_mem_nil, or_false] at h
    rcases h with rfl | rfl
    · exact NamedId.plain (by decide) (by decide) (by decide) (fun name => name.noEqual) hc
    · exact NamedId.plain (by decide) (by decide) (by decide) (fun name => name.noBlank) hc

theorem NamedId.clean_comma (i : NamedId) : Clean [','] i.text where
  ne_nil := i.text_ne_nil
  not_mem := by
    intro c hc h
    rw [List.mem_singleton.mp h] at hc
    exact i.noComma hc

/-- An id is read up to its name, or up to a text behind it that starts with no digit. -/
theorem NamedId.atoi_text (i : NamedId) {rest : Str} (hrest : Ends 10 rest) :
    atoi (i.text ++ rest) = i.id := by
  rw [NamedId.text, List.append_assoc]
  apply atoi_toDigits i.inRange
  rw [NamedId.nameText]
  cases i.name with
  | none => exact hrest
  | some name =>
    intro c hc
    cases hc
    decide

theorem IdLine.noNul_contextText (l : IdLine) : '\x00' ∉ l.contextText := by
  rw [IdLine.contextText]
  cases l.context with
  | none => simp
  | some label => simp [label.noNul]

theorem IdLine.noNul_groupText (l : IdLine) (gs : List NamedId) : '\x00' ∉ l.groupText gs := by
  rw [IdLine.groupText, List.mem_append, not_or]
  refine ⟨not_mem_intercalate (by decide) ?_, l.noNul_contextText⟩
  intro t ht
  obtain ⟨g, -, rfl⟩ := List.mem_map.mp ht
  exact g.noNul

theorem IdLine.c_str_text (l : IdLine) : c_str l.text = l.text := by
  apply c_str_of_not_mem
  have hu := l.uid.noNul
  have hg := l.gid.noNul
  unfold IdLine.text IdLine.restText
  cases l.groups with
  | none => simp [hu, hg, l.noNul_contextText]
  | some gs => simp [hu, hg, l.noNul_groupText gs.1]

/-- The tokens from the last id to the end of the line: the id itself, and the pieces of the
context behind its first comma. -/
theorem strtokAll_last (i : NamedId) (context : Option Label) :
    (strtokAll [','] (i.text ++
      match context with
      | none => []
      | some label => " context=".toList ++ label.str)).map atoi =
      (i.id : Int) ::
        match context with
        | none => []
        | some label => ((label.str.splitOn ',').tail.filter (· ≠ [])).map atoi := by
  cases context with
  | none =>
    rw [List.append_nil, strtokAll_clean i.clean_comma, List.map_singleton,
      ← List.append_nil i.text, i.atoi_text (ends_nil 10)]
  | some label =>
    have hblank : ∀ front, Ends 10 (" context=".toList ++ front) := by
      intro front c hc
      cases hc
      decide
    have hclean : ∀ front, ',' ∉ front →
        Clean [','] (i.text ++ (" context=".toList ++ front)) := by
      intro front hfront
      refine ⟨by simp, fun c hc h => ?_⟩
      rw [List.mem_singleton.mp h, List.mem_append, List.mem_append] at hc
      rcases hc with hc | hc | hc
      · exact i.noComma hc
      · exact absurd hc (by decide)
      · exact hfront hc
    by_cases hcomma : ',' ∈ label.str
    · obtain ⟨front, rest, hlabel, hfront⟩ := List.eq_append_cons_of_mem hcomma
      dsimp only
      rw [hlabel, ← List.append_assoc, ← List.append_assoc,
        strtokAll_append (List.mem_singleton_self ','), List.append_assoc,
        strtokAll_clean (hclean front hfront), strtokAll_singleton,
        List.splitOn_append_cons_self_of_not_mem hfront, List.singleton_append, List.map_cons,
        i.atoi_text (hblank front)]
      rfl
    · dsimp only
      rw [strtokAll_clean (hclean _ hcomma), List.splitOn_eq_singleton hcomma, List.map_singleton,
        i.atoi_text (hblank _)]
      rfl

/-- The groups that are read: the list, and the stray ones behind it. -/
theorem groups_of_groupText {l : IdLine} {gs : {gs : List NamedId // gs ≠ []}}
    (hgs : l.groups = some gs) :
    (strtokAll [','] (l.groupText gs.1)).map atoi = l.groupIds ++ l.strayGroups := by
  have hstray : l.strayGroups = match l.context with
      | none => []
      | some label => ((label.str.splitOn ',').tail.filter (· ≠ [])).map atoi := by
    rw [IdLine.strayGroups, hgs]
    cases l.context <;> rfl
  have hids : l.groupIds = gs.1.map fun g => (g.id : Int) := by rw [IdLine.groupIds, hgs]
  rw [hids, hstray, IdLine.groupText, IdLine.contextText]
  obtain ⟨gs, hne⟩ := gs
  clear hgs hids
  induction gs with
  | nil => exact absurd rfl hne
  | cons g gs ih =>
    cases gs with
    | nil => simpa [List.intercalate] using strtokAll_last g l.context
    | cons g' gs =>
      have hid := g.atoi_text (ends_nil 10)
      rw [List.append_nil] at hid
      rw [List.map_cons, List.map_cons, List.intercalate_cons_cons, List.append_assoc,
        List.append_assoc, List.singleton_append, strtokAll_append (List.mem_singleton_self ','),
        strtokAll_clean g.clean_comma, List.singleton_append, List.map_cons, hid]
      exact congrArg ((g.id : Int) :: ·) (ih (List.cons_ne_nil g' gs))

/-- The parser up to the token behind the group id. -/
theorem readTokens_head (u : UserInfo) (l : IdLine) {rest save : Str}
    (htext : l.text = "uid=".toList ++ (l.uid.text ++ (" gid=".toList ++ rest)))
    (hrest : strtok_r ['=', ' '] rest = some (l.gid.text, save)) :
    u.readTokens l.text =
      match strtok_r ['=', ' '] save with
      | none => ⟨l.uid.id, l.gid.id, u.m_Groups⟩
      | some (pch, save) => parseGroups ⟨l.uid.id, l.gid.id, u.m_Groups⟩ pch save := by
  have huid : Clean ['=', ' '] "uid".toList := ⟨by simp, by simp⟩
  have hgid : Clean ['=', ' '] "gid".toList := ⟨by simp, by simp⟩
  have hu := l.uid.atoi_text (ends_nil 10)
  have hg := l.gid.atoi_text (ends_nil 10)
  rw [List.append_nil] at hu hg
  have hshape : l.text = "uid".toList ++ '=' :: (l.uid.text ++ ' ' ::
      ("gid".toList ++ '=' :: rest)) := by
    rw [htext]
    simp
  rw [readTokens, hshape, strtok_r_token huid (by simp)]
  dsimp only
  rw [if_neg (not_not_intro rfl), strtok_r_token l.uid.clean (by simp)]
  dsimp only
  rw [strtok_r_token hgid (by simp)]
  dsimp only
  rw [if_neg (not_not_intro rfl), hrest]
  have hids : (⟨atoi l.uid.text, atoi l.gid.text, u.m_Groups⟩ : UserInfo) =
      ⟨l.uid.id, l.gid.id, u.m_Groups⟩ := by
    rw [hu, hg]
  exact congrArg (fun user => match strtok_r ['=', ' '] save with
    | none => user
    | some (pch, save) => parseGroups user pch save) hids

/-- What `parseUserInfoString` reads from a line of `id`. -/
theorem readTokens_text (l : IdLine) (iUid iGid : Int) :
    (readTokens ⟨iUid, iGid, []⟩ l.text).m_iUid = l.uid.id ∧
      (readTokens ⟨iUid, iGid, []⟩ l.text).m_iGid = l.gid.id ∧
      ∀ g, g ∈ (readTokens ⟨iUid, iGid, []⟩ l.text).m_Groups ↔
        g ∈ l.groupIds ∨ g ∈ l.strayGroups := by
  have hgid : ∀ save, strtok_r ['=', ' '] (l.gid.text ++ ' ' :: save) = some (l.gid.text, save) :=
    strtok_r_token l.gid.clean (by simp)
  cases hgs : l.groups with
  | some gs =>
    have hgroups : Clean ['=', ' '] "groups".toList := ⟨by simp, by simp⟩
    have htext : l.text = "uid=".toList ++ (l.uid.text ++ (" gid=".toList ++ (l.gid.text ++
        ' ' :: ("groups".toList ++ '=' :: l.groupText gs.1)))) := by
      unfold IdLine.text IdLine.restText
      rw [hgs]
      rfl
    rw [readTokens_head _ l htext (hgid _), strtok_r_token hgroups (by simp)]
    dsimp only
    rw [parseGroups, if_pos rfl, insertGroups]
    refine ⟨rfl, rfl, fun g => ?_⟩
    rw [mem_foldl_insert, groups_of_groupText hgs, List.mem_append]
    simp
  | none =>
    have hnoIds : l.groupIds = [] := by rw [IdLine.groupIds, hgs]
    have hnoStray : l.strayGroups = [] := by rw [IdLine.strayGroups, hgs]
    rw [hnoIds, hnoStray]
    cases hcontext : l.context with
    | some label =>
      have hword : Clean ['=', ' '] "context".toList := ⟨by simp, by simp⟩
      have htext : l.text = "uid=".toList ++ (l.uid.text ++ (" gid=".toList ++ (l.gid.text ++
          ' ' :: ("context".toList ++ '=' :: label.str)))) := by
        unfold IdLine.text IdLine.restText
        rw [hgs]
        dsimp only
        rw [IdLine.contextText, hcontext]
        rfl
      rw [readTokens_head _ l htext (hgid _), strtok_r_token hword (by simp)]
      dsimp only
      rw [parseGroups, if_neg (by decide)]
      exact ⟨rfl, rfl, fun g => by simp⟩
    | none =>
      have htext : l.text =
          "uid=".toList ++ (l.uid.text ++ (" gid=".toList ++ l.gid.text)) := by
        unfold IdLine.text IdLine.restText
        rw [hgs]
        dsimp only
        rw [IdLine.contextText, hcontext]
        dsimp only
        rw [List.append_nil]
      rw [readTokens_head _ l htext (strtok_r_last l.gid.clean), strtok_r_nil]
      exact ⟨rfl, rfl, fun g => by simp⟩

/-! ## The permissions -/

/-- The lowest bit of the class that decides about a file: the owner, the group or the
others. -/
def IdLine.classShift (l : IdLine) (u g : Int) : Nat :=
  if u = l.uid.id then 6 else if g = l.gid.id ∨ g ∈ l.groupIds then 3 else 0

/-- All bits of the mask are set in the class at `shift`. -/
def Permits (mode mask shift : Nat) : Prop :=
  ∀ i < 3, mask.testBit i = true → mode.testBit (i + shift) = true

instance (mode mask shift : Nat) : Decidable (Permits mode mask shift) :=
  inferInstanceAs (Decidable (∀ i < 3, mask.testBit i = true → mode.testBit (i + shift) = true))

theorem testAccesss_eq_zero {mode mask shift bits : Nat} (hmask : mask ≤ 7)
    (hbits : ∀ i < 3, bits.testBit (i + shift) = true) :
    testAccesss ((mode &&& bits) >>> shift) mask = 0 ↔ Permits mode mask shift := by
  have hzero : testAccesss ((mode &&& bits) >>> shift) mask = 0 ↔
      (mode &&& bits) >>> shift &&& mask = mask := by
    rw [testAccesss]
    split <;> simp_all [EACCES]
  rw [hzero, Permits]
  constructor
  · intro h i hi hbit
    have hand := congrArg (Nat.testBit · i) h
    simp only [Nat.testBit_and, Nat.testBit_shiftRight, hbit, Bool.and_true,
      Bool.and_eq_true] at hand
    rw [Nat.add_comm]
    exact hand.1
  · intro h
    apply Nat.eq_of_testBit_eq
    intro i
    by_cases hi : i < 3
    · cases hbit : mask.testBit i with
      | false => simp [hbit]
      | true =>
        have hmode := h i hi hbit
        have hset := hbits i hi
        rw [Nat.add_comm] at hmode hset
        simp [hbit, hmode, hset]
    · have hbig : mask < 2 ^ i := calc
        mask < 2 ^ 3 := by omega
        _ ≤ 2 ^ i := Nat.pow_le_pow_right (by decide) (by omega)
      simp [Nat.testBit_lt_two_pow hbig]

/-- `access` looks at the first class that the file's owner and group belong to. -/
theorem access_eq_zero (user : UserInfo) (u g : Int) (mode : Nat) {mask : Nat} (hmask : mask ≤ 7) :
    user.access u g mode mask = 0 ↔
      Permits mode mask
        (if user.m_iUid = u then 6 else if user.m_iGid = g ∨ g ∈ user.m_Groups then 3 else 0) := by
  rw [access]
  split
  · exact testAccesss_eq_zero hmask (by decide)
  · rw [belongs2Group]
    simp only [decide_eq_true_eq]
    split
    · exact testAccesss_eq_zero hmask (by decide)
    · have hothers : testAccesss ((mode &&& S_IRWXO) >>> 0) mask = 0 ↔ Permits mode mask 0 :=
        testAccesss_eq_zero hmask (by decide)
      rwa [Nat.shiftRight_zero] at hothers

theorem access_zero_or_eacces (user : UserInfo) (u g : Int) (mode mask : Nat) :
    user.access u g mode mask = 0 ∨ user.access u g mode mask = EACCES := by
  have htest : ∀ m, testAccesss m mask = 0 ∨ testAccesss m mask = EACCES := by
    intro m
    rw [testAccesss]
    split
    · exact Or.inl rfl
    · exact Or.inr rfl
  rw [access]
  split
  · exact htest _
  · split <;> exact htest _

/-- A class of permissions has three bits. -/
theorem le_seven_of_access {user : UserInfo} {u g : Int} {mode mask : Nat}
    (h : user.access u g mode mask = 0) : mask ≤ 7 := by
  have hclass : ∀ m, m ≤ 7 → testAccesss m mask = 0 → mask ≤ 7 := by
    intro m hm htest
    rw [testAccesss] at htest
    split at htest
    · rename_i hand
      have hle : m &&& mask ≤ m := Nat.and_le_left
      omega
    · exact absurd htest (by decide)
  have howner : mode &&& S_IRWXU ≤ S_IRWXU := Nat.and_le_right
  have hgroup : mode &&& S_IRWXG ≤ S_IRWXG := Nat.and_le_right
  have hothers : mode &&& S_IRWXO ≤ S_IRWXO := Nat.and_le_right
  rw [S_IRWXU] at howner
  rw [S_IRWXG] at hgroup
  rw [access] at h
  split at h
  · refine hclass _ ?_ h
    rw [Nat.shiftRight_eq_div_pow, S_IRWXU]
    omega
  · split at h
    · refine hclass _ ?_ h
      rw [Nat.shiftRight_eq_div_pow, S_IRWXG]
      omega
    · exact hclass _ hothers h

/-! ### Root -/

/-- Root gets what the class that it belongs to permits, and no more: `access` sets the result
for root first, and then sets it again by the class. A negative mask is taken as its bits. -/
theorem root_access_iff (groups : List Int) (u g : Int) (mode mask : Nat) :
    (⟨0, 0, groups⟩ : UserInfo).access u g mode mask = 0 ↔
      mask ≤ 7 ∧ Permits mode mask (if u = 0 then 6 else if g = 0 ∨ g ∈ groups then 3 else 0) := by
  constructor
  · intro h
    have hmask := le_seven_of_access h
    rw [access_eq_zero _ u g mode hmask] at h
    simp only [eq_comm] at h ⊢
    exact ⟨hmask, h⟩
  · rintro ⟨hmask, h⟩
    rw [access_eq_zero _ u g mode hmask]
    simp only [eq_comm] at h ⊢
    exact h

/-- Root may not read a file that only its owner may read. -/
theorem root_denied : ¬ ∀ (groups : List Int) (u g : Int) (mode mask : Nat),
    (⟨0, 0, groups⟩ : UserInfo).access u g mode mask = 0 :=
  fun h => absurd (h [] 1000 1000 0o100600 R_OK) (by decide)

/-! ### The user of a line -/

theorem parseUserInfoString_eq (user : UserInfo) (line : Str) :
    user.parseUserInfoString line =
      if FitsCopy line then some (user.readTokens (c_str line)) else none := by
  rw [parseUserInfoString, copyString_c_str]
  split <;> rfl

/-- The user is read, and `access` decides by the class of the line. `iUid` and `iGid` are what the
memory of the new object holds. -/
def DecidesByLine (l : IdLine) (iUid iGid u g : Int) (mode mask : Nat) : Prop :=
  ∃ user, parseUserInfoString ⟨iUid, iGid, []⟩ l.text = some user ∧
    user.access u g mode mask = if Permits mode mask (l.classShift u g) then 0 else EACCES

/-- The user that is read decides by the right class for a file unless a stray group is the
file's, no class before the others is the right one, and the group bits of the mode decide
otherwise than those of the others. -/
theorem readTokens_access_iff (l : IdLine) (iUid iGid u g : Int) {mode mask : Nat}
    (hmask : mask ≤ 7) :
    ((readTokens ⟨iUid, iGid, []⟩ l.text).access u g mode mask =
        if Permits mode mask (l.classShift u g) then 0 else EACCES) ↔
      (g ∈ l.strayGroups → u = l.uid.id ∨ g = l.gid.id ∨ g ∈ l.groupIds ∨
        (Permits mode mask 3 ↔ Permits mode mask 0)) := by
  obtain ⟨huid, hgid, hgroups⟩ := readTokens_text l iUid iGid
  generalize readTokens ⟨iUid, iGid, []⟩ l.text = user at huid hgid hgroups
  have hzero := access_eq_zero user u g mode hmask
  simp only [huid, hgid, hgroups] at hzero
  have hpermits : (user.access u g mode mask =
      if Permits mode mask (l.classShift u g) then 0 else EACCES) ↔
      (user.access u g mode mask = 0 ↔ Permits mode mask (l.classShift u g)) := by
    have hne : EACCES ≠ 0 := by decide
    rcases access_zero_or_eacces user u g mode mask with h | h <;> rw [h] <;> split <;>
      simp_all [eq_comm]
  rw [hpermits, hzero, IdLine.classShift]
  by_cases howner : u = l.uid.id
  · simp [howner]
  · rw [if_neg howner, if_neg (Ne.symm howner)]
    by_cases hlisted : g = l.gid.id ∨ g ∈ l.groupIds
    · rw [if_pos hlisted, if_pos (by rcases hlisted with h | h <;> simp [h])]
      rcases hlisted with h | h <;> simp [h]
    · rw [if_neg hlisted]
      rw [not_or] at hlisted
      by_cases hstray : g ∈ l.strayGroups
      · simp [hstray, hlisted.1, hlisted.2, howner]
      · simp [hstray, hlisted.2, Ne.symm hlisted.1]

/-- The line decides exactly where it fits and no stray group does. -/
theorem id_line_access_iff (l : IdLine) (iUid iGid u g : Int) {mode mask : Nat}
    (hmask : mask ≤ 7) :
    DecidesByLine l iUid iGid u g mode mask ↔
      l.text.length + 1 < 2 ^ 31 ∧
        (g ∈ l.strayGroups → u = l.uid.id ∨ g = l.gid.id ∨ g ∈ l.groupIds ∨
          (Permits mode mask 3 ↔ Permits mode mask 0)) := by
  have hfits : FitsCopy l.text ↔ l.text.length + 1 < 2 ^ 31 := by
    rw [FitsCopy, l.c_str_text]
  rw [DecidesByLine, parseUserInfoString_eq, l.c_str_text, ← hfits]
  split
  · rename_i h
    rw [and_iff_right h, ← readTokens_access_iff l iUid iGid u g hmask]
    simp only [Option.some.injEq, exists_eq_left']
  · rename_i h
    refine iff_of_false ?_ fun hand => h hand.1
    rintro ⟨user, huser, -⟩
    cases huser

/-- The line of an app of Android, whose context has two categories. -/
def appLine : IdLine where
  uid := { id := 10061, name := some { str := "u0_a61".toList } }
  gid := { id := 10061, name := none }
  groups := some ⟨[{ id := 3003, name := some { str := "inet".toList } }], by simp⟩
  context := some { str := "u:r:untrusted_app:s0:c512,c768".toList }

theorem id_line_access_iff_owner : 7 ≤ 7 ∧ DecidesByLine appLine 0 0 10061 0 0o700 7 :=
  ⟨by decide, (id_line_access_iff appLine 0 0 10061 0 (by decide)).mpr
    ⟨by decide, fun _ => Or.inl rfl⟩⟩

/-- The category `c768` reads as group 0, so that a file of root's group is open to the app. -/
theorem category_counts_as_group :
    (parseUserInfoString ⟨0, 0, []⟩ appLine.text).map (·.access 0 0 0o770 7) = some 0 ∧
      ¬ Permits 0o770 7 (appLine.classShift 0 0) := by
  decide +kernel

end UserInfo

end AdbncFs
