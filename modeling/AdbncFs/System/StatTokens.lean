import AdbncFs.System.StatArrays
import AdbncFs.Text.Conversions
import AdbncFs.Text.Tokens

/-!
# The tokens that doStat leaves

`doStat` rejects a reply of fewer than 13 tokens, but the comment in `adbnc_getattr` lists 15
of them and the place of the last is read there. Without a vector for the tokens `doStat`
does not look at the reply at all, and so needs no array for it.
-/

namespace AdbncFs

open Text Interaction

/-- The conversions of `adbnc_getattr`, in the order of its `try` block. -/
def statConversions : List (Conversion Stat) :=
  [.storing 7 (stoul · 10) fun ino s => { s with st_ino := ino },
    .storing 3 (stoul · 16) fun uiRawMode s =>
      { s with st_mode := toUnsigned uiRawMode ||| 0o700, st_nlink := 1 },
    .storing 4 (stoul · 10) fun uid s => { s with st_uid := toUnsigned uid },
    .storing 5 (stoul · 10) fun gid s => { s with st_gid := toUnsigned gid },
    .storing 6 (stoul · 16) fun uiDeviceId s => { s with st_rdev := toUnsigned uiDeviceId },
    .storing 1 (stoul · 10) fun size s => { s with st_size := toSigned size },
    .storing 14 stol fun blksize s => { s with st_blksize := blksize },
    .storing 2 (stoul · 10) fun blocks s => { s with st_blocks := toSigned blocks },
    .storing 11 stol fun atime s => { s with st_atime := atime },
    .storing 12 stol fun mtime s => { s with st_mtime := mtime },
    .storing 13 stol fun ctime s => { s with st_ctime := ctime }]

theorem fillStat_eq (tokens : List Str) :
    fillStat tokens = runConversions statConversions tokens := by
  simp only [statConversions, runConversions_storing]
  rfl

/-- The conversions of `adbnc_access`, into its variables `uiRawMode`, `iUid` and `iGid`. -/
def accessConversions : List (Conversion (Nat × Int × Int)) :=
  [.storing 3 (stoul · 16) fun uiRawMode r => (uiRawMode, r.2),
    .storing 4 stoi fun iUid r => (r.1, iUid, r.2.2),
    .storing 5 stoi fun iGid r => (r.1, r.2.1, iGid)]

/-- The places that `adbnc_getattr` reads when `doStat` left these tokens. -/
def getattrReads (tokens : List Str) : List Nat := readIndices statConversions tokens

/-- The places that `adbnc_access` reads. -/
def accessReads (iMask : Nat) (tokens : List Str) : List Nat :=
  if iMask = F_OK then [] else readIndices accessConversions tokens

/-- While every place that is read is in range, the memory behind the vector does not count. -/
theorem fillStat_append {tokens : List Str} (more : List Str)
    (h : ∀ i ∈ getattrReads tokens, i < tokens.length) :
    fillStat (tokens ++ more) = fillStat tokens := by
  rw [fillStat_eq, fillStat_eq]
  exact runConversions_append more h

/-- `adbnc_access` runs its conversions and decides by the three variables. -/
theorem checkAccess_eq (g : Globals) (p : Str) {iMask : Nat} (hmask : iMask ≠ F_OK)
    (tokens : List Str) :
    checkAccess g p iMask 0 tokens =
      match (runConversions accessConversions tokens).run.run (0, 0, 0) with
      | (.error _, _) => - EIO
      | (.ok (), uiRawMode, iUid, iGid) =>
        match g.pUserInfo with
        | none => 0
        | some pUserInfo =>
          let iRes := -pUserInfo.access iUid iGid (toUnsigned uiRawMode) iMask
          match g.pMountInfo with
          | none => iRes
          | some pMountInfo =>
            if iRes ≠ 0 then iRes
            else if iMask &&& W_OK ≠ 0 ∧ pMountInfo.isMountedRo p then -EACCES
            else if iMask &&& X_OK ≠ 0 ∧ pMountInfo.isMountedNoexec p then -EACCES
            else 0 := by
  rw [checkAccess, if_neg (fun h => h rfl), if_neg hmask]
  simp only [accessConversions, runConversions_storing]
  show _ = match StateT.run (ExceptT.run (do
    let uiRawMode ← stoul (token tokens 3) 16
    modify fun r => (uiRawMode, r.2)
    let iUid ← stoi (token tokens 4)
    modify fun r => (r.1, iUid, r.2.2)
    let iGid ← stoi (token tokens 5)
    modify fun r => (r.1, r.2.1, iGid)
    pure () : ExceptT Exception (StateM (Nat × Int × Int)) Unit)) (0, 0, 0) with
    | (.error _, _) => _
    | (.ok (), uiRawMode, iUid, iGid) => _
  cases stoul (token tokens 3) 16 <;> cases stoi (token tokens 4) <;>
    cases stoi (token tokens 5) <;> rfl

theorem checkAccess_append (g : Globals) (p : Str) {iMask : Nat} {tokens : List Str}
    (more : List Str) (h : ∀ i ∈ accessReads iMask tokens, i < tokens.length) :
    checkAccess g p iMask 0 (tokens ++ more) = checkAccess g p iMask 0 tokens := by
  by_cases hmask : iMask = F_OK
  · simp only [checkAccess, if_pos hmask]
  · rw [accessReads, if_neg hmask] at h
    rw [checkAccess_eq g p hmask, checkAccess_eq g p hmask, runConversions_append more h]

theorem getattrReads_lt {i : Nat} {tokens : List Str} (h : i ∈ getattrReads tokens) : i < 15 := by
  refine readIndices_lt ?_ h
  simp only [statConversions, List.forall_mem_cons, Conversion.storing]
  simp

theorem accessReads_lt {iMask i : Nat} {tokens : List Str} (h : i ∈ accessReads iMask tokens) :
    i < 6 := by
  rw [accessReads] at h
  split at h
  · cases h
  · refine readIndices_lt ?_ h
    simp only [accessConversions, List.forall_mem_cons, Conversion.storing]
    simp

/-! ## The two size tests -/

section

variable {ε : Type} (env : Env ε)

/-- What the cache keeps for the stat command, or else what the device replies to it. -/
def statReply (p : Str) (w : World ε) : Output :=
  (w.fileCache.getStat p (env.time w.env).1).getD (env.shell (.stat p) (env.time w.env).2).1

/-- The tokens of the reply, before the size tests. -/
def replyTokens (p : Str) (w : World ε) : List Str := tokenize (joinedFront (statReply env p w))

theorem run_doStatArray_reply (p : Str) (fTokens : Bool) (w : World ε) :
    ((doStatArray p fTokens).run.run env.handle w).1 =
      defined (statResultArray fTokens (statReply env p w)) := by
  rw [run_doStatArray, run_statOutput, statReply]
  cases w.fileCache.getStat p (env.time w.env).1 <;> rfl

/-- With a vector for the tokens, a reply is good when it has 13 of them. -/
theorem statResult_true (o : Output) :
    statResult true o =
      let tokens := tokenize (joinedFront o)
      if tokens.length < 13 then (-ENOENT, tokens) else (0, tokens.drop (tokens.length - 15)) := by
  by_cases hnil : o = []
  · subst hnil
    have hempty : tokenize (joinedFront []) = [] := strtokAll_of_none rfl
    rw [statResult, if_pos rfl, hempty]
    rfl
  · rw [statResult, if_neg hnil, if_pos rfl]

/-- Without one, every reply is good that has a line. -/
theorem statResult_false (o : Output) :
    statResult false o = if o = [] then (-ENOENT, []) else (0, []) := rfl

theorem statResult_true_eq_zero (o : Output) :
    (statResult true o).1 = 0 ↔ 13 ≤ (tokenize (joinedFront o)).length := by
  rw [statResult_true]
  dsimp only
  split
  · exact iff_of_false (show -ENOENT ≠ 0 by decide) (by omega)
  · exact iff_of_true rfl (by omega)

/-- `doStat` returns 0. -/
def Exists (p : Str) (fTokens : Bool) (w : World ε) : Prop :=
  ∃ tokens, ((doStatArray p fTokens).run.run env.handle w).1 = .ok (0, tokens)

theorem exists_true_iff (p : Str) (w : World ε) :
    Exists env p true w ↔
      StatFits (statReply env p w) ∧ 13 ≤ (replyTokens env p w).length := by
  rw [Exists, run_doStatArray_reply, replyTokens]
  by_cases hfits : StatFits (statReply env p w)
  · rw [statResultArray_of_fits hfits, and_iff_right hfits, ← statResult_true_eq_zero]
    constructor
    · rintro ⟨tokens, h⟩
      rw [Except.ok.inj h]
    · exact fun h => ⟨_, congrArg Except.ok (Prod.ext h rfl)⟩
  · rw [statResultArray_of_not_fits hfits]
    exact iff_of_false (fun ⟨tokens, h⟩ => nomatch h) fun h => hfits h.1

theorem exists_false_iff (p : Str) (w : World ε) :
    Exists env p false w ↔ statReply env p w ≠ [] := by
  rw [Exists, run_doStatArray_reply, statResultArray_false, statResult_false]
  split
  · exact iff_of_false (fun ⟨tokens, h⟩ => nomatch h) (not_not_intro ‹_›)
  · exact iff_of_true ⟨[], rfl⟩ ‹_›

/-- Both forms of `doStat` agree on a reply if and only if it is empty, or fits the array and has 13
tokens. -/
theorem doStat_forms_agree_iff (p : Str) (w : World ε) :
    (Exists env p false w ↔ Exists env p true w) ↔
      statReply env p w = [] ∨
        StatFits (statReply env p w) ∧ 13 ≤ (replyTokens env p w).length := by
  rw [exists_true_iff, exists_false_iff, replyTokens]
  by_cases hnil : statReply env p w = []
  · have hempty : tokenize (joinedFront []) = [] := strtokAll_of_none rfl
    rw [hnil, hempty]
    decide
  · simp [hnil]

def noSuchFile : Output := ["stat: can't stat '/a': No such file or directory".toList]

theorem doStat_forms_disagree :
    Exists (Env.replying noSuchFile) "/a".toList false World.start ∧
      ¬ Exists (Env.replying noSuchFile) "/a".toList true World.start := by
  have htrue : ((doStatArray "/a".toList true).run.run
      (Env.replying noSuchFile).handle World.start).1.map (·.1) = .ok (-ENOENT) := by
    decide +kernel
  refine ⟨⟨[], by decide +kernel⟩, fun ⟨tokens, h⟩ => ?_⟩
  rw [h] at htrue
  have hzero : (0 : Int) = -ENOENT := Except.ok.inj htrue
  exact absurd hzero (by decide)

/-- A token is read as no number. -/
def NoNumber (tokens : List Str) (i base : Nat) : Prop :=
  ∀ n, stoul (token tokens i) base ≠ .ok n

/-- With 13 or 14 tokens, the `try` block has to end before it reads the last place. -/
theorem getattrReads_lt_iff {tokens : List Str} (h13 : 13 ≤ tokens.length)
    (h15 : tokens.length < 15) :
    (∀ i ∈ getattrReads tokens, i < tokens.length) ↔
      ∃ r ∈ [(7, 10), (3, 16), (4, 10), (5, 10), (6, 16), (1, 10)],
        NoNumber tokens r.1 r.2 := by
  have hsplit : statConversions = statConversions.take 6 ++
      .storing 14 stol (fun blksize s => { s with st_blksize := blksize }) ::
        statConversions.drop 7 := rfl
  have hfront : ∀ c ∈ statConversions.take 6, c.index < tokens.length := by
    simp only [statConversions, List.take, List.mem_cons, List.not_mem_nil, or_false]
    rintro c (rfl | rfl | rfl | rfl | rfl | rfl) <;> dsimp only [Conversion.storing] <;> omega
  rw [getattrReads, hsplit, readIndices_lt_iff hfront (Nat.le_of_lt_succ h15)]
  simp only [statConversions, List.take, List.mem_cons, List.not_mem_nil, or_false,
    exists_eq_or_imp, exists_eq_left, Conversion.storing_succeeds, NoNumber, not_exists]
  rfl

/-- Every place that is read is in range, so that the memory behind the vector does not count. -/
structure ReadsInRange (tokens : List Str) (iMask : Nat) : Prop where
  inRange : ∀ i ∈ getattrReads tokens ++ accessReads iMask tokens, i < tokens.length
  getattr : ∀ more, fillStat (tokens ++ more) = fillStat tokens
  access : ∀ g p more, checkAccess g p iMask 0 (tokens ++ more) = checkAccess g p iMask 0 tokens

theorem readsInRange_iff {tokens : List Str} {iMask : Nat} :
    ReadsInRange tokens iMask ↔
      ∀ i ∈ getattrReads tokens ++ accessReads iMask tokens, i < tokens.length := by
  refine ⟨ReadsInRange.inRange, fun h => ⟨h, fun more => ?_, fun g p more => ?_⟩⟩
  · exact fillStat_append more fun i hi => h i (List.mem_append_left _ hi)
  · exact checkAccess_append g p more fun i hi => h i (List.mem_append_right _ hi)

/-- The reply is rejected, has all 15 tokens, or makes one of the six conversions before the last
place throw. -/
def EndsInRange (all : List Str) : Prop :=
  all.length < 13 ∨ 15 ≤ all.length ∨
    ∃ r ∈ [(7, 10), (3, 16), (4, 10), (5, 10), (6, 16), (1, 10)], NoNumber all r.1 r.2

theorem statResult_inRange_iff (o : Output) :
    (∀ tokens, statResult true o = (0, tokens) → ∀ iMask, ReadsInRange tokens iMask) ↔
      EndsInRange (tokenize (joinedFront o)) := by
  simp only [readsInRange_iff]
  rw [statResult_true, EndsInRange]
  generalize tokenize (joinedFront o) = all
  dsimp only
  by_cases h13 : all.length < 13
  · rw [if_pos h13]
    refine iff_of_true (fun tokens h => ?_) (Or.inl h13)
    exact absurd (Prod.mk.inj h).1 (by decide)
  rw [if_neg h13]
  by_cases h15 : 15 ≤ all.length
  · -- fifteen tokens are left
    refine iff_of_true (fun tokens h => ?_) (Or.inr (Or.inl h15))
    rw [← (Prod.mk.inj h).2, List.length_drop]
    intro iMask i hi
    have hi15 : i < 15 := by
      rcases List.mem_append.mp hi with hi | hi
      · exact getattrReads_lt hi
      · exact Nat.lt_trans (accessReads_lt hi) (by decide)
    omega
  · -- nothing is dropped, and the vector is too short
    have hdrop : all.drop (all.length - 15) = all := by
      rw [Nat.sub_eq_zero_of_le (by omega), List.drop_zero]
    rw [hdrop, or_iff_right h13, or_iff_right h15, ← getattrReads_lt_iff (by omega) (by omega)]
    constructor
    · intro h i hi
      exact h all rfl F_OK i (List.mem_append_left _ hi)
    · rintro h tokens htokens iMask i hi
      obtain rfl := (Prod.mk.inj htokens).2
      rcases List.mem_append.mp hi with hi | hi
      · exact h i hi
      · exact Nat.lt_of_lt_of_le (accessReads_lt hi) (by omega)

/-- `doStat` has a result, and where that is 0 every place that is read of the tokens is in
range. -/
def TokensInRange (p : Str) (w : World ε) : Prop :=
  ∃ r, ((doStatArray p true).run.run env.handle w).1 = .ok r ∧
    (r.1 = 0 → ∀ iMask, ReadsInRange r.2 iMask)

/-- Every place that is read is in range if and only if the reply fits the array of `tokenize`, and
its tokens end the reading before the last place or have it. -/
theorem stat_tokens_in_range_iff (p : Str) (w : World ε) :
    TokensInRange env p w ↔
      StatFits (statReply env p w) ∧ EndsInRange (replyTokens env p w) := by
  rw [TokensInRange, run_doStatArray_reply, replyTokens, ← statResult_inRange_iff]
  by_cases hfits : StatFits (statReply env p w)
  · rw [statResultArray_of_fits hfits, and_iff_right hfits]
    constructor
    · rintro ⟨r, hr, hreads⟩ tokens htokens
      obtain rfl := (Except.ok.inj hr).symm.trans htokens
      exact hreads rfl
    · exact fun h => ⟨_, rfl, fun hzero => h _ (Prod.ext hzero rfl)⟩
  · rw [statResultArray_of_not_fits hfits]
    exact iff_of_false (fun ⟨r, hr, _⟩ => nomatch hr) fun h => hfits h.1

/-- A reply that ends before the last two fields. -/
def shortStat : Output := ["/a 17 8 81a4 2000 1015 b301 4711 1 0 0 1448571240 1448571240".toList]

theorem stat_tokens_out_of_range :
    ∃ tokens,
      ((doStatArray "/a".toList true).run.run
          (Env.replying shortStat).handle World.start).1 = .ok (0, tokens) ∧
        14 ∈ getattrReads tokens ∧ tokens.length = 13 := by
  refine ⟨tokenize (joinedFront shortStat), ?_, ?_, ?_⟩ <;> decide +kernel

end

end AdbncFs
