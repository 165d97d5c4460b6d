import AdbncFs.Coherence.Fills
import AdbncFs.Device.NetCat
import AdbncFs.System.StatArrays
import AdbncFs.Text.Printing

/-!
# Replies of the stat command

What `stat -t` prints for a file: its name, which may hold blanks, tabs and line feeds, and
14 numbers. `doStat` joins the lines and counts from the end, so that it finds the numbers
behind every name whose joined line fits the array of `tokenize`; the output in the cache is the one
that was read, not the joined one.
-/

namespace AdbncFs

open Text Interaction

/-! ## What is printed -/

/-- An absolute path name without the end of command marker. -/
structure StatName where
  str : Str
  absolute : str.head? = some '/'
  noNul : '\x00' ∉ str
  noMarker : ¬ pcDone <:+: str

/-- The bytes of the name when `doStat` has joined the lines: without the line feeds, and with the
first line twice where there are more. -/
def StatName.joinedLength (n : StatName) : Nat :=
  n.str.length - n.str.count '\n' +
    if '\n' ∈ n.str then (n.str.takeWhile (· ≠ '\n')).length else 0

/-- The fields of `stat -t`, within the ranges of their types in `struct stat`. -/
structure StatRecord where
  size : Int
  blocks : Int
  mode : Nat
  uid : Nat
  gid : Nat
  device : Nat
  inode : Nat
  links : Nat
  majorType : Nat
  minorType : Nat
  atime : Int
  mtime : Int
  ctime : Int
  blksize : Int
  size_range : -2 ^ 63 ≤ size ∧ size < 2 ^ 63
  blocks_range : -2 ^ 63 ≤ blocks ∧ blocks < 2 ^ 63
  mode_range : mode < 2 ^ 32
  uid_range : uid < 2 ^ 32
  gid_range : gid < 2 ^ 32
  device_range : device < 2 ^ 64
  inode_range : inode < 2 ^ 64
  links_range : links < 2 ^ 64
  majorType_range : majorType < 2 ^ 32
  minorType_range : minorType < 2 ^ 32
  atime_range : -2 ^ 63 ≤ atime ∧ atime < 2 ^ 63
  mtime_range : -2 ^ 63 ≤ mtime ∧ mtime < 2 ^ 63
  ctime_range : -2 ^ 63 ≤ ctime ∧ ctime < 2 ^ 63
  blksize_range : -2 ^ 63 ≤ blksize ∧ blksize < 2 ^ 63

namespace StatRecord

/-- The mode, the device and its type are printed in hex. -/
def fields (r : StatRecord) : List Str :=
  [printInt r.size, printInt r.blocks, Nat.toDigits 16 r.mode, Nat.toDigits 10 r.uid,
    Nat.toDigits 10 r.gid, Nat.toDigits 16 r.device, Nat.toDigits 10 r.inode,
    Nat.toDigits 10 r.links, Nat.toDigits 16 r.majorType, Nat.toDigits 16 r.minorType,
    printInt r.atime, printInt r.mtime, printInt r.ctime, printInt r.blksize]

def text (r : StatRecord) : Str := [' '].intercalate r.fields

/-- What `stat -t` writes for the name `n`. -/
def reply (r : StatRecord) (n : StatName) : Str := n.str ++ ' ' :: (r.text ++ ['\n'])

/-- The lines that come through the netcat connection. -/
def output (r : StatRecord) (n : StatName) : Output := (readReply (deviceReply (r.reply n))).1

theorem clean_fields (r : StatRecord) {delim : Str} (hdigit : ∀ d < 16, Nat.digitChar d ∉ delim)
    (hminus : '-' ∉ delim) : ∀ f ∈ r.fields, Clean delim f := by
  have hint : ∀ i, Clean delim (printInt i) := fun i => clean_printInt i hdigit hminus
  have hdec : ∀ n, Clean delim (Nat.toDigits 10 n) :=
    fun n => clean_toDigits (by decide) (by decide) n hdigit
  have hhex : ∀ n, Clean delim (Nat.toDigits 16 n) :=
    fun n => clean_toDigits (by decide) (by decide) n hdigit
  simp [fields, hint, hdec, hhex]

/-- Only digits, signs and blanks are printed for the record. -/
theorem not_mem_text (r : StatRecord) {c : Char} (hdigit : ∀ d < 16, Nat.digitChar d ≠ c)
    (hminus : c ≠ '-') (hblank : c ≠ ' ') : c ∉ r.text := by
  apply not_mem_intercalate hblank
  intro f hf hc
  have hclean : Clean [c] f := r.clean_fields
    (fun d hd h => hdigit d hd (List.mem_singleton.mp h))
    (fun h => hminus (List.mem_singleton.mp h).symm) f hf
  exact hclean.not_mem c hc (List.mem_singleton_self c)

theorem noMarker_reply (r : StatRecord) (n : StatName) : ¬ pcDone <:+: r.reply n := by
  have hblank : ' ' ∉ pcDone := by decide
  rw [reply, infix_append_cons_iff hblank (by decide), not_or]
  refine ⟨n.noMarker, fun h => ?_⟩
  have ho : 'o' ∈ r.text ++ ['\n'] := h.subset (by decide)
  rw [List.mem_append] at ho
  rcases ho with ho | ho
  · exact r.not_mem_text (by decide) (by decide) (by decide) ho
  · exact absurd ho (by decide)

/-- The lines that are read are those of the reply. -/
theorem output_eq_lines (r : StatRecord) (n : StatName) : r.output n = lines (r.reply n) := by
  refine (readReply_framed (r.reply n)).1.mpr ⟨Or.inr ?_, r.noMarker_reply n⟩
  rw [reply, List.getLast?_append_of_ne_nil _ (List.cons_ne_nil _ _), ← List.cons_append,
    List.getLast?_append_of_ne_nil _ (List.cons_ne_nil _ _)]
  rfl

theorem foldl_append_lines (ls : Output) (front : Str) :
    ls.foldl (· ++ ·) front = front ++ ls.flatten := by
  induction ls generalizing front with
  | nil => simp
  | cons l ls ih => rw [List.foldl_cons, ih, List.flatten_cons, List.append_assoc]

theorem length_unlines {ls : List Str} (hls : ∀ l ∈ ls, '\n' ∉ l) :
    (unlines ls).length = ls.flatten.length + ls.length := by
  induction ls with
  | nil => rfl
  | cons l ls ih =>
    rw [unlines, List.length_append, List.length_cons, List.flatten_cons, List.length_append,
      List.length_cons, ih fun m hm => hls m (List.mem_cons_of_mem l hm)]
    omega

/-- However many lines the name has, the joined text is the record behind some text that
starts with a slash. -/
theorem joinedFront_output (r : StatRecord) (n : StatName) :
    ∃ front, joinedFront (r.output n) = '/' :: front ++ ' ' :: r.text ∧ '\x00' ∉ front ∧
      front.length + 1 = n.joinedLength := by
  obtain ⟨ls, t, hn, hls, ht⟩ := exists_unlines n.str
  have habs := n.absolute
  have hnul := n.noNul
  rw [hn] at habs hnul
  rw [List.mem_append, not_or] at hnul
  have hlast : '\n' ∉ t ++ ' ' :: r.text := by
    have htext : '\n' ∉ r.text := r.not_mem_text (by decide) (by decide) (by decide)
    simp [ht, htext]
  have hreply : r.reply n = unlines (ls ++ [t ++ ' ' :: r.text]) ++ [] := by
    rw [reply, hn, unlines_append]
    simp [unlines]
  have houtput : r.output n = ls ++ [t ++ ' ' :: r.text] := by
    rw [output_eq_lines, hreply, lines_unlines_append _ (by simp), if_pos rfl, List.append_nil]
    intro l hl
    rcases List.mem_append.mp hl with hl | hl
    · exact hls l hl
    · rw [List.mem_singleton.mp hl]
      exact hlast
  have hcount : n.str.count '\n' = ls.length := by rw [hn, count_unlines_append hls ht]
  have hsize : n.str.length = ls.flatten.length + ls.length + t.length := by
    rw [hn, List.length_append, length_unlines hls]
  rw [houtput, StatName.joinedLength, hcount, hsize]
  cases ls with
  | nil =>
    -- a name in one line
    have honeLine : '\n' ∉ n.str := by rwa [hn]
    rw [if_neg honeLine]
    obtain ⟨front, rfl⟩ : ∃ front, t = '/' :: front := by
      cases t with
      | nil => cases habs
      | cons c front =>
        cases habs
        exact ⟨front, rfl⟩
    exact ⟨front, rfl, fun h => hnul.2 (List.mem_cons_of_mem _ h), by simp⟩
  | cons l ls =>
    have hfirst : n.str.takeWhile (· ≠ '\n') = l := by
      have hl : ∀ c ∈ l, decide (c ≠ '\n') = true := fun c hc =>
        decide_eq_true fun hc' => hls l List.mem_cons_self (hc' ▸ hc)
      rw [hn, unlines, List.append_assoc, List.takeWhile_append_of_pos hl, List.cons_append,
        List.takeWhile_cons_of_neg (by decide), List.append_nil]
    have hmore : '\n' ∈ n.str := by
      rw [hn, unlines]
      simp
    rw [if_pos hmore, hfirst]
    obtain ⟨l, rfl⟩ : ∃ l', l = '/' :: l' := by
      cases l with
      | nil => cases habs
      | cons c l =>
        cases habs
        exact ⟨l, rfl⟩
    have hjoined : joinedFront (('/' :: l) :: ls ++ [t ++ ' ' :: r.text]) =
        (ls ++ [t ++ ' ' :: r.text]).foldl (· ++ ·) (('/' :: l) ++ ('/' :: l)) := by
      cases ls <;> rfl
    refine ⟨l ++ '/' :: l ++ ls.flatten ++ t, ?_, ?_, ?_⟩
    · rw [hjoined, foldl_append_lines]
      simp
    · have hline : ∀ m ∈ ('/' :: l) :: ls, '\x00' ∉ m := fun m hm hc => hnul.1 (mem_unlines hm hc)
      have hl : '\x00' ∉ l := fun h =>
        hline _ List.mem_cons_self (List.mem_cons_of_mem _ h)
      have hflat : '\x00' ∉ ls.flatten := by
        rw [List.mem_flatten]
        rintro ⟨m, hm, hc⟩
        exact hline m (List.mem_cons_of_mem _ hm) hc
      simp [hl, hflat, hnul.2]
    · simp only [List.length_append, List.length_cons, List.flatten_cons]
      omega

/-- The joined text fits the array of `tokenize` when its length and the NUL do in an `int`. -/
theorem statFits_output_iff (r : StatRecord) (n : StatName) :
    StatFits (r.output n) ↔ n.joinedLength + 1 + r.text.length + 1 < 2 ^ 31 := by
  obtain ⟨front, hjoined, hnul, hlength⟩ := r.joinedFront_output n
  have htextNul : '\x00' ∉ r.text := r.not_mem_text (by decide) (by decide) (by decide)
  have hjoinedNul : '\x00' ∉ joinedFront (r.output n) := by
    rw [hjoined]
    simp [hnul, htextNul]
  rw [StatFits, fitsArray_iff hjoinedNul, hjoined, ← hlength, List.length_append, List.length_cons,
    List.length_cons]
  omega

/-- `doStat` finds the fields behind one more token. -/
theorem statResult_output (r : StatRecord) (n : StatName) :
    ∃ first, statResult true (r.output n) = (0, first :: r.fields) := by
  obtain ⟨front, hjoined, hnul, -⟩ := r.joinedFront_output n
  have hne : r.output n ≠ [] := by
    intro h
    rw [h] at hjoined
    cases hjoined
  have htextNul : '\x00' ∉ r.text := r.not_mem_text (by decide) (by decide) (by decide)
  have hfields : strtokAll " \t".toList r.text = r.fields :=
    strtokAll_intercalate (by decide) (r.clean_fields (by decide) (by decide))
  have htokens : tokenize (joinedFront (r.output n)) =
      strtokAll " \t".toList ('/' :: front) ++ r.fields := by
    have hjoinedNul : '\x00' ∉ '/' :: front ++ ' ' :: r.text := by simp [hnul, htextNul]
    rw [hjoined, tokenize, c_str_of_not_mem hjoinedNul, strtokAll_append (by decide), hfields]
  -- the slash belongs to a token, so there is at least one before the fields
  have hfront : strtokAll " \t".toList ('/' :: front) ≠ [] := strtokAll_ne_nil (by decide) front
  obtain ⟨pre, first, hpre⟩ : ∃ pre first,
      strtokAll " \t".toList ('/' :: front) = pre ++ [first] :=
    ⟨_, _, (List.dropLast_append_getLast hfront).symm⟩
  refine ⟨first, ?_⟩
  have hlen : r.fields.length = 14 := rfl
  rw [statResult, if_neg hne, if_pos rfl]
  dsimp only
  rw [htokens, hpre, if_neg (by simp [hlen])]
  have hdrop : (pre ++ [first] ++ r.fields).length - 15 = pre.length := by
    simp only [List.length_append, List.length_singleton, hlen]
    omega
  rw [hdrop, List.append_assoc, List.drop_left]
  rfl

/-- What `adbnc_getattr` stores for the record. -/
def stat (r : StatRecord) : Stat where
  st_ino := r.inode
  st_mode := r.mode ||| 0o700
  st_nlink := 1
  st_uid := r.uid
  st_gid := r.gid
  st_rdev := toUnsigned r.device
  st_size := r.size
  st_blksize := r.blksize
  st_blocks := r.blocks
  st_atime := r.atime
  st_mtime := r.mtime
  st_ctime := r.ctime

theorem toSigned_of_range {i : Int} (h : -2 ^ 63 ≤ i ∧ i < 2 ^ 63) :
    toSigned (i % 2 ^ 64).toNat = i := by
  rw [toSigned]
  split <;> omega

theorem fillStat_fields (r : StatRecord) (first : Str) (s : Stat) :
    (fillStat (first :: r.fields)).run.run s = (.ok (), r.stat) := by
  have hino : stoul (token (first :: r.fields) 7) 10 = .ok r.inode :=
    stoul_toDigits (by decide) (by decide) r.inode_range
  have hmode : stoul (token (first :: r.fields) 3) 16 = .ok r.mode :=
    stoul_toDigits (by decide) (by decide) (Nat.lt_trans r.mode_range (by decide))
  have huid : stoul (token (first :: r.fields) 4) 10 = .ok r.uid :=
    stoul_toDigits (by decide) (by decide) (Nat.lt_trans r.uid_range (by decide))
  have hgid : stoul (token (first :: r.fields) 5) 10 = .ok r.gid :=
    stoul_toDigits (by decide) (by decide) (Nat.lt_trans r.gid_range (by decide))
  have hdevice : stoul (token (first :: r.fields) 6) 16 = .ok r.device :=
    stoul_toDigits (by decide) (by decide) r.device_range
  have hsize : stoul (token (first :: r.fields) 1) 10 = .ok (r.size % 2 ^ 64).toNat :=
    stoul_printInt r.size_range.1 r.size_range.2
  have hblksize : stol (token (first :: r.fields) 14) = .ok r.blksize :=
    stol_printInt r.blksize_range.1 r.blksize_range.2
  have hblocks : stoul (token (first :: r.fields) 2) 10 = .ok (r.blocks % 2 ^ 64).toNat :=
    stoul_printInt r.blocks_range.1 r.blocks_range.2
  have hatime : stol (token (first :: r.fields) 11) = .ok r.atime :=
    stol_printInt r.atime_range.1 r.atime_range.2
  have hmtime : stol (token (first :: r.fields) 12) = .ok r.mtime :=
    stol_printInt r.mtime_range.1 r.mtime_range.2
  have hctime : stol (token (first :: r.fields) 13) = .ok r.ctime :=
    stol_printInt r.ctime_range.1 r.ctime_range.2
  have hmode32 : toUnsigned r.mode = r.mode := Nat.mod_eq_of_lt r.mode_range
  have huid32 : toUnsigned r.uid = r.uid := Nat.mod_eq_of_lt r.uid_range
  have hgid32 : toUnsigned r.gid = r.gid := Nat.mod_eq_of_lt r.gid_range
  rw [fillStat, hino, hmode, huid, hgid, hdevice, hsize, hblksize, hblocks, hatime, hmtime,
    hctime]
  show (Except.ok (), (⟨r.inode, toUnsigned r.mode ||| 0o700, 1, toUnsigned r.uid,
    toUnsigned r.gid, toUnsigned r.device, toSigned (r.size % 2 ^ 64).toNat, r.blksize,
    toSigned (r.blocks % 2 ^ 64).toNat, r.atime, r.mtime, r.ctime⟩ : Stat)) = _
  rw [hmode32, huid32, hgid32, toSigned_of_range r.size_range, toSigned_of_range r.blocks_range]
  rfl

theorem attributes_output (r : StatRecord) (n : StatName) :
    attributes (r.output n) = (0, r.stat) := by
  obtain ⟨first, hfirst⟩ := r.statResult_output n
  have hfill := r.fillStat_fields first Stat.zero
  rw [attributes, hfirst, storedAttributes]
  simp only [hfill]

end StatRecord

/-! ## The calls -/

section

variable {ε : Type} (env : Env ε)

/-- The calls `doStat` and `adbnc_getattr` for the name give the record. -/
def Decodes (n : StatName) (r : StatRecord) (w : World ε) : Prop :=
  (∃ first,
    ((doStatArray n.str true).run.run env.handle w).1 = .ok (0, first :: r.fields)) ∧
    ((adbnc_getattrArray n.str).run.run env.handle w).1 = .ok (0, r.stat)

theorem decodes_of_statOutput {n : StatName} {r : StatRecord} {w : World ε}
    (h : ((statOutput n.str).run env.handle w).1 = r.output n) (hfits : StatFits (r.output n)) :
    Decodes env n r w := by
  have hfits' : StatFits ((statOutput n.str).run env.handle w).1 := h ▸ hfits
  obtain ⟨first, hfirst⟩ := r.statResult_output n
  constructor
  · refine ⟨first, ?_⟩
    rw [doStatArray_of_fits env n.str w hfits', doStat, Program.run_bind, h]
    exact congrArg Except.ok hfirst
  · rw [adbnc_getattrArray_of_fits env n.str w hfits', adbnc_getattr, Program.run_bind, h]
    exact congrArg Except.ok (r.attributes_output n)

/-- A joined line that does not fit is undefined. -/
theorem not_decodes {n : StatName} {r : StatRecord} {w : World ε}
    (h : ((statOutput n.str).run env.handle w).1 = r.output n) (hfits : ¬ StatFits (r.output n)) :
    ¬ Decodes env n r w := by
  rintro ⟨⟨first, hfirst⟩, -⟩
  rw [doStatArray_of_not_fits env n.str w (h ▸ hfits)] at hfirst
  cases hfirst

/-- After the stat command was run for the name, the cache holds what was read. -/
theorem kept_statOutput {p : Str} {w : World ε}
    (hmiss : w.fileCache.getStat p (env.time w.env).1 = none) :
    ((statOutput p).run env.handle w).2.fileCache.kept .stat p =
      some (env.shell (.stat p) (env.time w.env).2).1 := by
  rw [run_statOutput, hmiss]
  exact (FileCache.kept_put .stat .stat _ _ _ _ _).trans (if_pos ⟨rfl, rfl⟩)

/-- The stat reply decodes: now, and whenever it comes from the cache later, whatever was done in
between on other paths or on this one without asking the device again. -/
def KeepsDecoding (n : StatName) (r : StatRecord) (w : World ε) : Prop :=
  r.fields.length = 14 ∧ Decodes env n r w ∧
    ∀ es w', Answered env.handle es ((doStatArray n.str true).run.run env.handle w).2 w' →
      (∀ e ∈ es, ¬ Sys.Op.SetsStat n.str e.1) →
      w'.fileCache.getStat n.str (env.time w'.env).1 ≠ none → Decodes env n r w'

theorem statOutput_of_miss {p : Str} {w : World ε}
    (hmiss : w.fileCache.getStat p (env.time w.env).1 = none) :
    ((statOutput p).run env.handle w).1 = (env.shell (.stat p) (env.time w.env).2).1 := by
  rw [run_statOutput, hmiss]

/-- The reply that the device has just given decodes exactly where the joined line fits the
array. -/
theorem stat_reply_decodes_iff (n : StatName) (r : StatRecord) (w : World ε)
    (hmiss : w.fileCache.getStat n.str (env.time w.env).1 = none)
    (hreply : (env.shell (.stat n.str) (env.time w.env).2).1 = r.output n) :
    KeepsDecoding env n r w ↔ n.joinedLength + 1 + r.text.length + 1 < 2 ^ 31 := by
  have hread : ((statOutput n.str).run env.handle w).1 = r.output n :=
    (statOutput_of_miss env hmiss).trans hreply
  rw [← r.statFits_output_iff n]
  constructor
  · rintro ⟨-, hdecodes, -⟩
    by_contra hfits
    exact not_decodes env hread hfits hdecodes
  · intro hfits
    refine ⟨rfl, decodes_of_statOutput env hread hfits, ?_⟩
    intro es w' hes hset hhit
    obtain ⟨o, ho⟩ := Option.ne_none_iff_exists'.mp hhit
    rw [run_doStatArray] at hes
    have hkept : w'.fileCache.kept .stat n.str = some (r.output n) := by
      rw [kept_answered hset hes, kept_statOutput env hmiss, hreply]
    have hsame : o = r.output n := by
      have hkept' := FileCache.kept_of_get ho
      rw [hkept] at hkept'
      exact (Option.some.inj hkept').symm
    refine decodes_of_statOutput env ?_ hfits
    rw [run_statOutput, ho, hsame]

end

/-- A name in two lines, the second with a blank in it. -/
def twoLines : StatName := ⟨"/a\nb c".toList, by decide, by decide, by decide +kernel⟩

def smallRecord : StatRecord where
  size := 17
  blocks := 8
  mode := 0x81a4
  uid := 2000
  gid := 1015
  device := 0xb301
  inode := 4711
  links := 1
  majorType := 0
  minorType := 0
  atime := 1448571240
  mtime := 1448571240
  ctime := -1
  blksize := 4096
  size_range := by decide
  blocks_range := by decide
  mode_range := by decide
  uid_range := by decide
  gid_range := by decide
  device_range := by decide
  inode_range := by decide
  links_range := by decide
  majorType_range := by decide
  minorType_range := by decide
  atime_range := by decide
  mtime_range := by decide
  ctime_range := by decide
  blksize_range := by decide

/-- A device with this one file. -/
def Env.twoLines : Env Unit :=
  { Env.obliging with shell := fun _ _ => (smallRecord.output AdbncFs.twoLines, ()) }

theorem stat_reply_decodes_twoLines : KeepsDecoding Env.twoLines twoLines smallRecord World.start :=
  (stat_reply_decodes_iff Env.twoLines twoLines smallRecord World.start rfl rfl).mpr
    (by decide +kernel)

/-- Only the letter `a` and the slash stand in the long name. -/
theorem not_mem_long {c : Char} (hslash : c ≠ '/') (ha : c ≠ 'a') (k : Nat) :
    c ∉ '/' :: List.replicate k 'a' := by
  rw [List.mem_cons, not_or]
  exact ⟨hslash, fun h => ha (List.eq_of_mem_replicate h)⟩

/-- A name of more than `2 ^ 31` bytes. -/
def longName : StatName where
  str := '/' :: List.replicate (2 ^ 31) 'a'
  absolute := rfl
  noNul := not_mem_long (by decide) (by decide) (2 ^ 31)
  noMarker := fun h => not_mem_long (by decide) (by decide) (2 ^ 31)
    (h.subset (show 'e' ∈ pcDone by decide))

/-- A device with a file of this name. -/
def Env.longName : Env Unit :=
  { Env.obliging with shell := fun _ _ => (smallRecord.output AdbncFs.longName, ()) }

/-- A name without line feeds is joined as it is. -/
theorem joinedLength_oneLine {n : StatName} (h : '\n' ∉ n.str) :
    n.joinedLength = n.str.length := by
  rw [StatName.joinedLength, if_neg h, List.count_eq_zero_of_not_mem h, Nat.sub_zero, Nat.add_zero]

theorem not_statFits_longName : ¬ StatFits (smallRecord.output longName) := by
  have honeLine : '\n' ∉ longName.str := not_mem_long (by decide) (by decide) (2 ^ 31)
  have hlength : longName.str.length = (List.replicate (2 ^ 31) 'a').length + 1 := List.length_cons
  rw [List.length_replicate] at hlength
  rw [smallRecord.statFits_output_iff, joinedLength_oneLine honeLine, hlength]
  omega

theorem stat_reply_long_name :
    (Env.longName.shell (.stat longName.str) ()).1 = smallRecord.output longName ∧
      ¬ KeepsDecoding Env.longName longName smallRecord World.start := by
  have hreply : (Env.longName.shell (.stat longName.str) ()).1 = smallRecord.output longName := by
    rw [Env.longName]
  have hmiss : World.start.fileCache.getStat longName.str
      (Env.longName.time World.start.env).1 = none := rfl
  have hread := (statOutput_of_miss Env.longName hmiss).trans hreply
  exact ⟨hreply, fun h => not_decodes Env.longName hread not_statFits_longName h.2.1⟩

end AdbncFs
