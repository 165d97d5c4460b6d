import AdbncFs.System.Conduct

/-!
# Files that nobody changes

A file that is only looked at, opened, read, flushed and closed is left alone on the device,
whatever becomes of other files at the same time: no transfer to it is started, and each line
that is sent is read there as a command that changes no file, or that names neither the file
nor a directory above it (`threads_spare`). This is so as long as no path and no name in a
listing of the device has a single quote: with one, the line of a command that only asks can be
read as any other. Neither is a truncation seen there, since it changes the local copy and does
not mark it for writing. An fsync is another matter: it sends the local copy of a file that was
only read.
-/

namespace AdbncFs

open Text Interaction

variable {p : Str} {g : Globals}

/-! ## What leaves a file alone -/

/-- The path is that of the file or leads to a directory above it. -/
def Covers (q p : Str) : Prop :=
  q <+: p ∧ (q = p ∨ q.getLast? = some '/' ∨ p[q.length]? = some '/')

/-- The commands of busybox that change no file. -/
def askingApplets : List Str :=
  ["stat".toList, "readlink".toList, "ls".toList, "df".toList, "sync".toList]

/-- The device reads the line as a command that changes no file, or that names neither the file
nor a directory above it. -/
def LineSpares (p line : Str) : Prop :=
  ∃ applet args, Shell.words line = some ("busybox".toList :: applet :: args) ∧
    (applet ∈ askingApplets ∨ ∀ arg ∈ args, ¬ Covers arg p)

/-- What leaves a file of the device alone. -/
def Sys.Op.Spares (p : Str) : Sys.Op → Prop
  | .shell command => LineSpares p command.line
  | .spawn argv _ => ∃ fPush l r, argv = adbArgv fPush l r ∧ (fPush = true → ¬ Covers r p)
  | _ => True

/-- The path survives single quotes. -/
def Unquoted (q : Str) : Prop := '\'' ∉ q

instance (q : Str) : Decidable (Unquoted q) := inferInstanceAs (Decidable ('\'' ∉ q))

def sparing (p : Str) : Conduct where
  keeps s := ∀ q, Covers q p → (s.entry q).m_fForWrite = false
  may op := op.Spares p
  push _ strRemoteDestination := ¬ Covers strRemoteDestination p ∧ Unquoted strRemoteDestination
  asks := Unquoted
  lists := Unquoted

/-- The calls whose path survives its quotes and, where they change its file, does not lead to
`p`. -/
def Callback.Spares (p : Str) : Callback → Prop
  | .write q _ _ _ | .fsync q _ | .mknod q _ _ | .mkdir q | .rmdir q | .unlink q =>
    ¬ Covers q p ∧ Unquoted q
  | .utimens q => ¬ Covers q p ∧ Shell.doubleSafe q = true
  | .rename pcFrom pcTo =>
    (¬ Covers pcFrom p ∧ Unquoted pcFrom) ∧ ¬ Covers pcTo p ∧ Unquoted pcTo
  | .getattr q | .access q _ | .readlink q _ | .open' q _ | .read q _ _ _ | .flush q _
  | .release q _ | .truncate q _ => Unquoted q

def FuseCall.Spares {β : Type} (p : Str) : FuseCall β → Prop
  | .callback c => c.Spares p
  | .statfs q | .opendir q | .readdir q _ _ _ | .releasedir q => Unquoted q

/-! ## The lines that are sent -/

theorem spares_of_asks {c : Command} (hc : c.Asks) (hpaths : ∀ q ∈ c.paths, Unquoted q) :
    LineSpares p c.line := by
  have hwords := Command.quoted_iff c
  cases c with
  | stat q => exact ⟨_, ["-t".toList, q], hwords.mpr hpaths, Or.inl (by decide)⟩
  | readlink q => exact ⟨_, ["-f".toList, q], hwords.mpr hpaths, Or.inl (by decide)⟩
  | ls q => exact ⟨_, ["-1a".toList, q], hwords.mpr hpaths, Or.inl (by decide)⟩
  | dfBlocks q =>
    exact ⟨_, ["-P".toList, "-B".toList, "4096".toList, q], hwords.mpr hpaths, Or.inl (by decide)⟩
  | dfInodes q => exact ⟨_, ["-P".toList, "-i".toList, q], hwords.mpr hpaths, Or.inl (by decide)⟩
  | sync => exact ⟨_, [], hwords.mpr hpaths, Or.inl (by decide)⟩
  | _ => exact hc.elim

/-- A command with one word for the applet and the paths behind it. -/
theorem spares_of_paths {c : Command} {applet : Str} (happlet : c.applet = [applet])
    (hquotable : c.Quotable) (hpaths : ∀ q ∈ c.paths, ¬ Covers q p) : LineSpares p c.line := by
  have hwords := (Command.quoted_iff c).mpr hquotable
  rw [Command.words, happlet] at hwords
  exact ⟨applet, c.paths, hwords, Or.inr hpaths⟩

theorem unquoted_parent {q : Str} (hq : Unquoted q) : Unquoted (parent q) := fun hmem =>
  (mem_parent hmem).elim hq (by decide)

theorem unquoted_entry {q entry : Str} (hq : Unquoted q) (hentry : Unquoted entry) :
    Unquoted (fullEntryPath q entry) := by
  intro hmem
  rcases List.mem_append.mp hmem with hmem | hmem
  · split at hmem
    · rcases List.mem_append.mp hmem with hmem | hmem
      · exact hq hmem
      · exact absurd (List.mem_singleton.mp hmem) (by decide)
    · exact hq hmem
  · exact hentry hmem

/-! ## The calls -/

theorem letsAsk_sparing : (sparing p).LetsAsk where
  cacheGet _ _ := trivial
  cachePut _ _ _ := trivial
  invalidate _ := trivial
  shell _ hc hpaths := spares_of_asks hc hpaths
  syscall _ _ := trivial
  entry _ _ hq hentry := unquoted_entry hq hentry

theorem letsPush_sparing : (sparing p).LetsPush := fun l r hr =>
  ⟨unquoted_parent hr.2, true, l, r, rfl, fun _ => hr.1⟩

/-- The entries stay unmarked when it is another one that changes, or by what the change does. -/
theorem marks_sparing {q : Str} {f : FileStatus.Entry → FileStatus.Entry}
    (hf : Covers q p → ∀ e, e.m_fForWrite = false → (f e).m_fForWrite = false) :
    (sparing p).Marks (·.modify q f) := by
  intro s hs r hr
  show ((s.modify q f).entry r).m_fForWrite = false
  rw [FileStatus.entry_modify]
  by_cases hq : r = q
  · subst hq
    rw [if_pos rfl]
    exact hf hr _ (hs r hr)
  · rw [if_neg hq]
    exact hs r hr

theorem lets_sparing {c : Callback} (hc : c.Spares p) : (sparing p).Lets g c := by
  have hsame : ∀ q f, (∀ e : FileStatus.Entry, (f e).m_fForWrite = e.m_fForWrite) →
      (sparing p).Marks (·.modify q f) := fun q f hf =>
    marks_sparing fun _ e he => (hf e).trans he
  have hclosed : ∀ q b, (sparing p).Marks (·.setPendingOpen q b false) := fun q b =>
    marks_sparing fun _ _ _ => rfl
  have hsingle : ∀ {q : Str}, ¬ Covers q p ∧ Unquoted q → ∀ c : Command, c.paths = [q] →
      (∀ r ∈ c.paths, Unquoted r) ∧ ∀ r ∈ c.paths, ¬ Covers r p := by
    intro q hq c hpaths
    rw [hpaths, List.forall_mem_singleton, List.forall_mem_singleton]
    exact ⟨hq.2, hq.1⟩
  cases c with
  | getattr | access | readlink => exact hc
  | open' q pFi =>
    exact ⟨hc, ⟨false, _, q, rfl, nofun⟩, fun _ => trivial, hsame q _ fun _ => rfl⟩
  | read q | release q => exact hclosed q _
  | write q => exact marks_sparing fun h => absurd h hc.1
  | flush q pFi =>
    refine ⟨hclosed q _, hsame q _ fun _ => rfl, fun s hs hwrite => ⟨fun hq => ?_, hc⟩⟩
    exact absurd ((hs q hq).symm.trans hwrite) nofun
  | fsync q => exact ⟨hc, hclosed q _⟩
  | truncate q => exact ⟨hc, trivial, hsame q _ fun _ => rfl⟩
  | utimens q =>
    refine spares_of_paths (c := .touch q) rfl hc.2 ?_
    exact List.forall_mem_singleton.mpr hc.1
  | mknod q => exact ⟨trivial, hc⟩
  | mkdir q =>
    obtain ⟨hquoted, hpaths⟩ := hsingle hc (.mkdir q) rfl
    exact spares_of_paths (c := .mkdir q) rfl hquoted hpaths
  | rename pcFrom pcTo =>
    obtain ⟨hfrom, hto⟩ := hc
    refine ⟨spares_of_paths (c := .mv pcFrom pcTo) rfl ?_ ?_, hsame pcTo _ fun _ => rfl⟩
    · exact List.forall_mem_cons.mpr ⟨hfrom.2, List.forall_mem_singleton.mpr hto.2⟩
    · exact List.forall_mem_cons.mpr ⟨hfrom.1, List.forall_mem_singleton.mpr hto.1⟩
  | rmdir q =>
    obtain ⟨hquoted, hpaths⟩ := hsingle hc (.rmdir q) rfl
    exact spares_of_paths (c := .rmdir q) rfl hquoted hpaths
  | unlink q =>
    obtain ⟨hquoted, hpaths⟩ := hsingle hc (.rm q) rfl
    exact ⟨trivial, spares_of_paths (c := .rm q) rfl hquoted hpaths⟩

/-! ## Every interleaving -/

variable {α β ε ι : Type} [DecidableEq ι]

/-- No name in the listings that are kept has a single quote. -/
def OpenDirs.Unquoted (dirs : OpenDirs) : Prop :=
  ∀ q output, dirs q = some output → ∀ entry ∈ output, AdbncFs.Unquoted entry

/-- One thread reads a file and flushes it, another one writes and flushes another file. -/
def readAndWrite : Bool → Program (Fuse Unit) Int
  | false => .send (S := Fuse Unit) (.callback (.read ['/', 'a'] 1 0 ⟨5, 0⟩)) >>=
      fun _ : Int => .send (S := Fuse Unit) (.callback (.flush ['/', 'a'] ⟨5, 0⟩))
  | true => .send (S := Fuse Unit) (.callback (.write ['/', 'b'] ['x'] 0 ⟨6, 0⟩)) >>=
      fun _ : Int => .send (S := Fuse Unit) (.callback (.flush ['/', 'b'] ⟨6, 0⟩))

/-- The operation starts this program. -/
def DirSys.Op.spawns (argv : List Str) : DirSys.Op → Bool
  | .sys (.spawn argv' _) => argv' = argv
  | _ => false

end AdbncFs
