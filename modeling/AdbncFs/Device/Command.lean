import AdbncFs.Text.Shell

/-!
# The commands sent to the device

Every shell command that the callbacks run on the device, as the text they build for it.
`adbncShell` puts the text behind `busybox ` and sends the line through netcat, where a
bash reads it. `quoted_iff` says for which paths that bash finds the intended words: for
the commands that put the path between single quotes, when it has no single quote; for the
`touch` of `adbnc_utimens`, which uses double quotes, when it is safe between those.
-/

namespace AdbncFs

open Text

/-- The commands run by `adbncShell`, with the paths put into them. -/
inductive Command
  /-- `doStat` -/
  | stat (pcPath : Str)
  /-- `adbnc_readlink` -/
  | readlink (pcPath : Str)
  /-- `adbnc_opendir` -/
  | ls (pcPath : Str)
  /-- `adbnc_statfs`, block numbers -/
  | dfBlocks (pcPath : Str)
  /-- `adbnc_statfs`, inode numbers -/
  | dfInodes (pcPath : Str)
  /-- `adbnc_mkdir` -/
  | mkdir (pcPath : Str)
  /-- `adbnc_rmdir` -/
  | rmdir (pcPath : Str)
  /-- `adbnc_rename` -/
  | mv (pcFrom pcTo : Str)
  /-- `adbnc_unlink` -/
  | rm (pcPath : Str)
  /-- `adbnc_utimens` -/
  | touch (pcPath : Str)
  /-- `adbnc_mknod`, after the push -/
  | sync
  deriving DecidableEq

namespace Command

/-- The string that the callback builds. -/
def text : Command → Str
  | stat pcPath => "stat -t '".toList ++ pcPath ++ "'".toList
  | readlink pcPath => "readlink -f '".toList ++ pcPath ++ "'".toList
  | ls pcPath => "ls -1a '".toList ++ pcPath ++ "'".toList
  | dfBlocks pcPath => "df -P -B 4096 '".toList ++ pcPath ++ "'".toList
  | dfInodes pcPath => "df -P -i '".toList ++ pcPath ++ "'".toList
  | mkdir pcPath => "mkdir '".toList ++ pcPath ++ "'".toList
  | rmdir pcPath => "rmdir '".toList ++ pcPath ++ "'".toList
  | mv pcFrom pcTo => "mv '".toList ++ pcFrom ++ "' '".toList ++ pcTo ++ "'".toList
  | rm pcPath => "rm '".toList ++ pcPath ++ "'".toList
  | touch pcPath => "touch \"".toList ++ pcPath ++ "\"".toList
  | sync => "sync".toList

/-- The line that `adbncShell` sends. -/
def line (c : Command) : Str := "busybox ".toList ++ c.text

/-- The applet with its fixed options. -/
def applet : Command → List Str
  | stat _ => ["stat".toList, "-t".toList]
  | readlink _ => ["readlink".toList, "-f".toList]
  | ls _ => ["ls".toList, "-1a".toList]
  | dfBlocks _ => ["df".toList, "-P".toList, "-B".toList, "4096".toList]
  | dfInodes _ => ["df".toList, "-P".toList, "-i".toList]
  | mkdir _ => ["mkdir".toList]
  | rmdir _ => ["rmdir".toList]
  | mv _ _ => ["mv".toList]
  | rm _ => ["rm".toList]
  | touch _ => ["touch".toList]
  | sync => ["sync".toList]

/-- The path arguments. -/
def paths : Command → List Str
  | stat p | readlink p | ls p | dfBlocks p | dfInodes p | mkdir p | rmdir p | rm p | touch p => [p]
  | mv p q => [p, q]
  | sync => []

/-- The commands that change no file. -/
def Asks : Command → Prop
  | stat _ | readlink _ | ls _ | dfBlocks _ | dfInodes _ | sync => True
  | _ => False

/-- The words the callback means: busybox, the applet, its options, and the paths. -/
def words (c : Command) : List Str := "busybox".toList :: (c.applet ++ c.paths)

/-- The paths survive the quotes put around them. -/
def Quotable : Command → Prop
  | touch p => Shell.doubleSafe p = true
  | c => ∀ p ∈ c.paths, '\'' ∉ p

/-! ## What the shell on the device reads -/

/-- Plain words, each with a blank after it, in front of a line. -/
def before (ws : List Str) (s : Str) : Str := ws.foldr (fun w t => w ++ ' ' :: t) s

theorem lex_before {ws : List Str} (s : Str) (h : ∀ w ∈ ws, w ≠ [] ∧ w.all Shell.plain = true) :
    Shell.lex (.unquoted none) (before ws s) =
      (Shell.lex (.unquoted none) s).map (ws ++ ·) := by
  induction ws with
  | nil => simp [before]
  | cons w ws ih =>
    have hw := h w List.mem_cons_self
    change Shell.lex _ (w ++ ' ' :: before ws s) = _
    rw [Shell.lex_word _ hw.1 hw.2, ih fun v hv => h v (List.mem_cons_of_mem _ hv), Option.map_map]
    rfl

/-- Plain words and one path between single quotes. -/
theorem words_single {ws : List Str} {p : Str} (h : ∀ w ∈ ws, w ≠ [] ∧ w.all Shell.plain = true) :
    Shell.words (before ws ('\'' :: (p ++ ['\'']))) = some (ws ++ [p]) ↔ '\'' ∉ p := by
  rw [Shell.words, lex_before _ h, Shell.lex_cons_none (n := .single []) (by simp [Shell.step]),
    ← Shell.lex_single_iff, Option.map_eq_some_iff]
  simp

/-- Plain words and one path between double quotes. -/
theorem words_double {ws : List Str} {p : Str} (h : ∀ w ∈ ws, w ≠ [] ∧ w.all Shell.plain = true) :
    Shell.words (before ws ('"' :: (p ++ ['"']))) = some (ws ++ [p]) ↔
      Shell.doubleSafe p = true := by
  rw [Shell.words, lex_before _ h, Shell.lex_cons_none (n := .double []) (by simp [Shell.step]),
    ← Shell.lex_double_iff (w := []), Option.map_eq_some_iff]
  simp

/-- Plain words and two paths between single quotes. -/
theorem words_pair {ws : List Str} {p q : Str}
    (h : ∀ w ∈ ws, w ≠ [] ∧ w.all Shell.plain = true) :
    Shell.words (before ws ('\'' :: (p ++ '\'' :: ' ' :: '\'' :: (q ++ ['\''])))) =
      some (ws ++ [p, q]) ↔ '\'' ∉ p ∧ '\'' ∉ q := by
  rw [Shell.words, lex_before _ h, Shell.lex_cons_none (n := .single []) (by simp [Shell.step]),
    ← Shell.lex_pair_iff, Option.map_eq_some_iff]
  simp

theorem plain_busybox {ws : List Str} (h : ∀ w ∈ ws, w ≠ [] ∧ w.all Shell.plain = true) :
    ∀ w ∈ "busybox".toList :: ws, w ≠ [] ∧ w.all Shell.plain = true := by
  intro w hw
  rcases List.mem_cons.mp hw with rfl | hw
  · decide
  · exact h w hw

theorem plain_applet (c : Command) : ∀ w ∈ c.applet, w ≠ [] ∧ w.all Shell.plain = true := by
  cases c <;> (simp only [applet]; decide)

/-- The line of a command that puts its one path between single quotes. -/
theorem single_quoted_iff {c : Command} {p : Str} (hpaths : c.paths = [p])
    (hline : c.line = before ("busybox".toList :: c.applet) ('\'' :: (p ++ ['\'']))) :
    Shell.words c.line = some c.words ↔ ∀ q ∈ c.paths, '\'' ∉ q := by
  rw [words, hline, hpaths, ← List.cons_append]
  exact (words_single (plain_busybox c.plain_applet)).trans (by simp)

theorem append_pair (a p b q c : Str) : a ++ p ++ b ++ q ++ c = a ++ (p ++ (b ++ (q ++ c))) := by
  simp only [List.append_assoc]

/-- The device finds the intended words exactly when the paths survive their quotes. -/
theorem quoted_iff (c : Command) : Shell.words c.line = some c.words ↔ c.Quotable := by
  cases c with
  | stat p => exact single_quoted_iff rfl rfl
  | readlink p => exact single_quoted_iff rfl rfl
  | ls p => exact single_quoted_iff rfl rfl
  | dfBlocks p => exact single_quoted_iff rfl rfl
  | dfInodes p => exact single_quoted_iff rfl rfl
  | mkdir p => exact single_quoted_iff rfl rfl
  | rmdir p => exact single_quoted_iff rfl rfl
  | rm p => exact single_quoted_iff rfl rfl
  | touch p => exact words_double (plain_busybox (touch p).plain_applet)
  | mv p q =>
    have hline : (mv p q).line = before ["busybox".toList, "mv".toList]
        ('\'' :: (p ++ '\'' :: ' ' :: '\'' :: (q ++ ['\'']))) :=
      congrArg ("busybox ".toList ++ ·) (append_pair "mv '".toList p "' '".toList q "'".toList)
    rw [hline]
    refine (words_pair (plain_busybox (mv p q).plain_applet)).trans ?_
    simp [Quotable, paths]
  | sync =>
    have h : Shell.words sync.line = some sync.words := by decide +kernel
    exact iff_of_true h (by simp [Quotable, paths])

/-- A single quote in a path ends the quotes of `rm`, and what follows it is read by the
shell: here a command of its own. -/
theorem quote_in_path_breaks :
    ¬ ∀ c : Command, Shell.words c.line = some c.words := by
  intro h
  have := h (rm "/x'; reboot; '".toList)
  revert this
  decide +kernel

end Command

end AdbncFs
