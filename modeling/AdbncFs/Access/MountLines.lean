import AdbncFs.Access.MountInfo
import AdbncFs.Text.Tokens
import Mathlib.Data.List.Nodup

/-!
# Lines of `mount`

A well-formed line of the applet `mount` and what `parseMountInfo` reads from it. The table
of several lines keeps the first line for each mount point, where `mount` lists the mounts in
their order and a later one shadows the earlier ones.
-/

namespace AdbncFs

open Text

namespace MountInfo

/-- A field of a line: not empty, without blank and NUL. -/
structure Field where
  str : Str
  ne_nil : str ≠ [] := by decide
  noBlank : ' ' ∉ str := by decide
  noNul : '\x00' ∉ str := by decide

/-- A mount option: not empty and without the characters that end an option. -/
structure MountOption where
  str : Str
  ne_nil : str ≠ [] := by decide
  noComma : ',' ∉ str := by decide
  noOpen : '(' ∉ str := by decide
  noClose : ')' ∉ str := by decide
  noNul : '\x00' ∉ str := by decide

structure MountLine where
  fileSystem : Field
  mountPoint : Field
  devType : Field
  options : List MountOption

namespace MountLine

def optionNames (l : MountLine) : List Str := l.options.map (·.str)

/-- What stands between the parentheses, with the closing one. -/
def optionText (l : MountLine) : Str := [','].intercalate l.optionNames ++ [')']

/-- The line as `mount` prints it. -/
def text (l : MountLine) : Str :=
  l.fileSystem.str ++ ' ' :: ("on".toList ++ ' ' :: (l.mountPoint.str ++ ' ' ::
    ("type".toList ++ ' ' :: (l.devType.str ++ ' ' :: '(' :: l.optionText))))

end MountLine

theorem Field.clean (f : Field) : Clean [' '] f.str where
  ne_nil := f.ne_nil
  not_mem := by
    rintro c hc h
    rw [List.mem_singleton] at h
    exact f.noBlank (h ▸ hc)

theorem MountOption.clean (o : MountOption) : Clean [',', ')'] o.str where
  ne_nil := o.ne_nil
  not_mem := by
    intro c hc h
    simp only [List.mem_cons, List.not_mem_nil, or_false] at h
    rcases h with rfl | rfl
    · exact o.noComma hc
    · exact o.noClose hc

/-- A character that no option holds is not between the parentheses. -/
theorem MountLine.not_mem_options {l : MountLine} {c : Char} (hcomma : c ≠ ',')
    (h : ∀ o : MountOption, c ∉ o.str) : c ∉ [','].intercalate l.optionNames := by
  refine not_mem_intercalate hcomma fun o ho => ?_
  obtain ⟨o, -, rfl⟩ := List.mem_map.mp ho
  exact h o

theorem MountLine.c_str_text (l : MountLine) : c_str l.text = l.text := by
  apply c_str_of_not_mem
  have hopts := l.not_mem_options (c := '\x00') (by decide) fun o => o.noNul
  simp [MountLine.text, MountLine.optionText, l.fileSystem.noNul, l.mountPoint.noNul,
    l.devType.noNul, hopts]

/-- The options between the parentheses are the tokens, also when there are none. -/
theorem MountLine.strtokAll_optionText (l : MountLine) :
    strtokAll [',', ')'] l.optionText = l.optionNames := by
  have hclean : ∀ o ∈ l.optionNames, Clean [',', ')'] o := by
    intro o ho
    obtain ⟨o, -, rfl⟩ := List.mem_map.mp ho
    exact o.clean
  rw [MountLine.optionText, strtokAll_append (by simp), strtokAll_intercalate (by simp) hclean,
    strtokAll_of_none strtok_r_nil, List.append_nil]

/-- The parenthesis in front is skipped, and the token goes to the end of the line. -/
theorem strtok_r_openParen {options : Str} (h : '(' ∉ options) :
    strtok_r ['('] ('(' :: (options ++ [')'])) = some (options ++ [')'], []) := by
  rw [strtok_r_delim (by simp)]
  apply strtok_r_last
  constructor
  · simp
  · intro c hc hmem
    rw [List.mem_singleton] at hmem
    subst hmem
    simp only [List.mem_append, h, List.mem_singleton, false_or] at hc
    exact absurd hc (by decide)

theorem MountLine.strtok_r_optionText (l : MountLine) :
    strtok_r ['('] ('(' :: l.optionText) = some (l.optionText, []) :=
  strtok_r_openParen (l.not_mem_options (by decide) fun o => o.noOpen)

/-- What the line says. -/
def MountLine.entry (l : MountLine) : Entry :=
  ⟨l.fileSystem.str, l.mountPoint.str, l.devType.str,
    l.optionNames.foldl (fun options o => options.insert o) []⟩

/-- The parser cuts the line where its parts end. -/
theorem ofTokens_text (l : MountLine) : Entry.ofTokens l.text = l.entry := by
  have hon : Clean [' '] "on".toList := ⟨by simp, by simp⟩
  have htype : Clean [' '] "type".toList := ⟨by simp, by simp⟩
  have hblank : ' ' ∈ [' '] := List.mem_singleton_self _
  rw [Entry.ofTokens, MountLine.text, strtok_r_token l.fileSystem.clean hblank]
  dsimp only
  rw [strtok_r_token hon hblank]
  dsimp only
  rw [if_neg (not_not_intro rfl), strtok_r_token l.mountPoint.clean hblank]
  dsimp only
  rw [strtok_r_token htype hblank]
  dsimp only
  rw [if_neg (not_not_intro rfl), strtok_r_token l.devType.clean hblank]
  dsimp only
  rw [l.strtok_r_optionText]
  dsimp only
  rw [Entry.insertOptions, l.strtokAll_optionText]
  rfl

theorem parseMountInfo_eq (line : Str) :
    Entry.parseMountInfo line =
      if FitsCopy line then some (Entry.ofTokens (c_str line)) else none := by
  rw [Entry.parseMountInfo, copyString_c_str]
  split <;> rfl

theorem parseMountInfo_text (l : MountLine) :
    Entry.parseMountInfo l.text = if FitsCopy l.text then some l.entry else none := by
  rw [parseMountInfo_eq, l.c_str_text, ofTokens_text]

theorem nodup_foldl_insert (os : List Str) {init : List Str} (h : init.Nodup) :
    (os.foldl (fun options o => options.insert o) init).Nodup := by
  induction os generalizing init with
  | nil => exact h
  | cons o os ih => exact ih (List.Nodup.insert h)

theorem mem_options_entry {l : MountLine} {o : Str} :
    o ∈ l.entry.m_mountOptions ↔ o ∈ l.optionNames := by
  have hmem := mem_foldl_insert (a := o) id l.optionNames []
  rw [List.map_id, or_iff_right List.not_mem_nil] at hmem
  exact hmem

theorem isMountedRo_entry (l : MountLine) :
    l.entry.isMountedRo = decide ("ro".toList ∈ l.optionNames) := by
  rw [Entry.isMountedRo, List.contains_eq_mem, decide_eq_decide]
  exact mem_options_entry

theorem isMountedNoexec_entry (l : MountLine) :
    l.entry.isMountedNoexec = decide ("noexec".toList ∈ l.optionNames) := by
  rw [Entry.isMountedNoexec, List.contains_eq_mem, decide_eq_decide]
  exact mem_options_entry

/-- The entry has the parts of the line, and `ro` and `noexec` only count as whole options. -/
def ReadsLine (l : MountLine) (e : Entry) : Prop :=
  e.m_strFileSystem = l.fileSystem.str ∧ e.m_strMountPoint = l.mountPoint.str ∧
    e.m_strDevType = l.devType.str ∧ e.m_mountOptions.Nodup ∧
    (∀ o, o ∈ e.m_mountOptions ↔ o ∈ l.optionNames) ∧
    (e.isMountedRo = true ↔ "ro".toList ∈ l.optionNames) ∧
    (e.isMountedNoexec = true ↔ "noexec".toList ∈ l.optionNames)

theorem readsLine_entry (l : MountLine) : ReadsLine l l.entry := by
  refine ⟨rfl, rfl, rfl, nodup_foldl_insert _ List.nodup_nil, fun o => mem_options_entry, ?_, ?_⟩
  · rw [isMountedRo_entry, decide_eq_true_iff]
  · rw [isMountedNoexec_entry, decide_eq_true_iff]

theorem MountLine.fitsCopy_text (l : MountLine) :
    FitsCopy l.text ↔ l.text.length + 1 < 2 ^ 31 := by
  rw [FitsCopy, l.c_str_text]

/-- A line is read back part by part, exactly when its length and the NUL fit in an `int`. -/
theorem parseMountInfo_reads_line (l : MountLine) :
    (∃ e, Entry.parseMountInfo l.text = some e ∧ ReadsLine l e) ↔
      l.text.length + 1 < 2 ^ 31 := by
  rw [parseMountInfo_text, ← l.fitsCopy_text]
  split
  · exact iff_of_true ⟨l.entry, rfl, readsLine_entry l⟩ ‹_›
  · rename_i hfits
    refine iff_of_false ?_ hfits
    rintro ⟨e, hparse, -⟩
    cases hparse

/-- A file system with a name of `2 ^ 31` bytes. -/
def longLine : MountLine where
  fileSystem :=
    { str := List.replicate (2 ^ 31) 'a'
      ne_nil := List.ne_nil_of_length_pos (by rw [List.length_replicate]; decide)
      noBlank := fun h => absurd (List.eq_of_mem_replicate h) (by decide)
      noNul := fun h => absurd (List.eq_of_mem_replicate h) (by decide) }
  mountPoint := { str := "/mnt".toList }
  devType := { str := "ext4".toList }
  options := []

theorem long_line_not_read : Entry.parseMountInfo longLine.text = none := by
  have hlong : ¬ FitsCopy longLine.text := by
    rw [longLine.fitsCopy_text, MountLine.text, List.length_append]
    have hlength : longLine.fileSystem.str.length = 2 ^ 31 := List.length_replicate
    omega
  rw [parseMountInfo_text, if_neg hlong]

/-! ## The table of several lines -/

theorem lookup_insert (m : MountInfo) (p : Str × Entry) (k : Str) :
    (m.insert p).m_Entries.lookup k =
      (m.m_Entries.lookup k).or (if k = p.1 then some p.2 else none) := by
  rw [insert]
  split
  · rename_i h
    by_cases hk : k = p.1
    · rw [hk, Option.or_of_isSome h]
    · rw [if_neg hk, Option.or_none]
  · have hone : List.lookup k [p] = if k = p.1 then some p.2 else none := by
      by_cases hk : k = p.1
      · rw [hk, if_pos rfl]
        exact List.lookup_cons_self
      · have hbeq : (k == p.1) = false := beq_false_of_ne hk
        rw [List.lookup_cons, hbeq, if_neg hk]
        rfl
    rw [List.lookup_append, hone]

/-- The table has for each mount point the first entry with it. -/
theorem lookup_ofEntries (entries : List Entry) (k : Str) :
    (ofEntries entries).findMountPointEntry k =
      entries.find? fun e => e.m_strMountPoint = k := by
  have hfold : ∀ m : MountInfo,
      (entries.foldl (fun m entry => m.insert (entry.m_strMountPoint, entry)) m).m_Entries.lookup
        k = (m.m_Entries.lookup k).or (entries.find? fun e => e.m_strMountPoint = k) := by
    induction entries with
    | nil => simp
    | cons e entries ih =>
      intro m
      rw [List.foldl_cons, ih, lookup_insert, Option.or_assoc, List.find?_cons]
      by_cases hk : k = e.m_strMountPoint
      · simp [hk]
      · simp [hk, Ne.symm hk]
  rw [findMountPointEntry, ofEntries, hfold]
  rfl

/-- A mount point of the table is its own entry. -/
theorem mountPoint_of_find {m : MountInfo} {p : Str} {e : Entry}
    (h : m.findMountPointEntry p = some e) : m.mountPoint p = some e := by
  rw [mountPoint, mountPoint.loop, h]

/-- The lines that name a mount point, in their order. -/
def naming (mp : Str) (ls : List MountLine) : List MountLine :=
  ls.filter fun l => l.mountPoint.str = mp

/-- The entry of a mount point is that of the first line with it. -/
theorem mountPoint_ofEntries {mp : Str} {ls : List MountLine} (h : naming mp ls ≠ []) :
    (ofEntries (ls.map MountLine.entry)).mountPoint mp = some ((naming mp ls).head h).entry := by
  apply mountPoint_of_find
  rw [lookup_ofEntries, List.find?_map]
  show Option.map _ (ls.find? fun l => l.mountPoint.str = mp) = _
  rw [← List.head?_filter]
  show (naming mp ls).head?.map _ = _
  rw [List.head?_eq_some_head h]
  rfl

/-- The constructor has a table exactly for lines that all fit. -/
theorem ofOutput_eq (lines : List Str) :
    ofOutput lines =
      if ∀ line ∈ lines, FitsCopy line then
        some (ofEntries (lines.map fun line => Entry.ofTokens (c_str line)))
      else none := by
  have hmapM : lines.mapM Entry.parseMountInfo =
      if ∀ line ∈ lines, FitsCopy line then
        some (lines.map fun line => Entry.ofTokens (c_str line))
      else none := by
    induction lines with
    | nil => rfl
    | cons line lines ih =>
      rw [List.mapM_cons, ih, parseMountInfo_eq]
      simp only [List.forall_mem_cons]
      split <;> split <;> simp_all
  rw [ofOutput, hmapM]
  split <;> rfl

theorem ofOutput_text (ls : List MountLine) :
    ofOutput (ls.map (·.text)) =
      if ∀ l ∈ ls, l.text.length + 1 < 2 ^ 31 then some (ofEntries (ls.map MountLine.entry))
      else none := by
  have hfits : (∀ line ∈ ls.map (·.text), FitsCopy line) ↔
      ∀ l ∈ ls, l.text.length + 1 < 2 ^ 31 := by
    simp only [List.forall_mem_map, MountLine.fitsCopy_text]
  have hentries : (ls.map (·.text)).map (fun line => Entry.ofTokens (c_str line)) =
      ls.map MountLine.entry := by
    rw [List.map_map]
    refine List.map_congr_left fun l _ => ?_
    rw [Function.comp_apply, l.c_str_text, ofTokens_text]
  rw [ofOutput_eq, hentries]
  exact if_congr hfits rfl rfl

/-- The table is there, and the options of the last line for the mount point count. -/
def LastCounts (mp : Str) (ls : List MountLine) (h : naming mp ls ≠ []) : Prop :=
  ∃ m, ofOutput (ls.map (·.text)) = some m ∧
    m.isMountedRo mp = decide ("ro".toList ∈ ((naming mp ls).getLast h).optionNames) ∧
    m.isMountedNoexec mp = decide ("noexec".toList ∈ ((naming mp ls).getLast h).optionNames)

/-- The options of the last line for a mount point count exactly when all lines fit and the first
line for it has the same. -/
theorem last_mount_counts_iff (mp : Str) (ls : List MountLine) (h : naming mp ls ≠ []) :
    LastCounts mp ls h ↔
      (∀ l ∈ ls, l.text.length + 1 < 2 ^ 31) ∧
        ("ro".toList ∈ ((naming mp ls).head h).optionNames ↔
          "ro".toList ∈ ((naming mp ls).getLast h).optionNames) ∧
        ("noexec".toList ∈ ((naming mp ls).head h).optionNames ↔
          "noexec".toList ∈ ((naming mp ls).getLast h).optionNames) := by
  rw [LastCounts, ofOutput_text]
  split
  · rename_i hfits
    rw [and_iff_right hfits]
    simp only [Option.some.injEq, exists_eq_left', isMountedRo, isMountedNoexec,
      mountPoint_ofEntries h, Option.any_some, isMountedRo_entry, isMountedNoexec_entry,
      decide_eq_decide]
  · rename_i hfits
    exact iff_of_false (fun ⟨m, hm, _⟩ => nomatch hm) fun hand => hfits hand.1

/-- Two mounts on `/mnt/secure/asec` of a real device, without some of their options. -/
def asecLines : List MountLine :=
  [{ fileSystem := { str := "tmpfs".toList }
     mountPoint := { str := "/mnt/secure/asec".toList }
     devType := { str := "tmpfs".toList }
     options := [{ str := "rw".toList }, { str := "seclabel".toList }] },
   { fileSystem := { str := "/dev/block/vold/179:64".toList }
     mountPoint := { str := "/mnt/secure/asec".toList }
     devType := { str := "exfat".toList }
     options := [{ str := "rw".toList }, { str := "noexec".toList },
       { str := "errors=remount-ro".toList }] }]

/-- A third mount like the first. -/
def remountedLines : List MountLine := asecLines ++ asecLines.take 1

theorem last_mount_counts_iff_tmpfs :
    LastCounts "/mnt/secure/asec".toList remountedLines (by decide) :=
  (last_mount_counts_iff _ remountedLines (by decide)).mpr (by decide)

/-- The second mount is `noexec`, but the table has the first. -/
theorem earlier_mount_counts :
    (ofOutput (asecLines.map (·.text))).map (·.isMountedNoexec "/mnt/secure/asec".toList) =
        some false ∧
      "noexec".toList ∈
        ((naming "/mnt/secure/asec".toList asecLines).getLast (by decide)).optionNames := by
  decide +kernel

end MountInfo

end AdbncFs
