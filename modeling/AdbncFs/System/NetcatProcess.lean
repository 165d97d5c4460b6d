import AdbncFs.System.Crashes
import AdbncFs.System.Tokenizing
import AdbncFs.Text.LeadingNumbers

/-!
# The netcat process on the device

`androidNetcatStarted` looks for the process in the lines that a pipeline of `ps` and `grep`
prints. It takes the first line without `grep` for the line of the process and its first token for
the pid, whatever the line is. `androidNetcatStarted_iff` says for which lines that goes well.
-/

namespace AdbncFs

open Text Interaction

/-! ## The source -/

def iForwardPort : Int := 4444

def androidNetCatStartCommand : Str :=
  "nc -ll -p ".toList ++ printInt iForwardPort ++ " -e /system/xbin/bash".toList

/-- `stoi(tokens[0].c_str())`; there may be no tokens, or none that are defined. -/
def firstPid : Option (List Str) → Except Crash Int
  | some (token :: _) => (stoi (c_str token)).mapError .uncaught
  | some [] | none => throw .undefined

/-- The loop over the lines. -/
def androidNetcatStarted.loop : Output → Except Crash Int
  | [] => return 0
  | front :: output =>
    if find front "grep".toList 0 = none then firstPid (tokenizeArray front)
    else androidNetcatStarted.loop output

/-- The arguments of the pipeline. The start command is a temporary string of the source, which is
gone when its text is used; here the text is still there. -/
def psArgv : List Str :=
  ["adb".toList, "shell".toList, "su".toList, "-c".toList, "busybox".toList, "ps".toList,
    "|".toList, "grep".toList, androidNetCatStartCommand]

def androidNetcatStarted : ExceptT Crash (Program Sys) Int := do
  let (output, _) ← execProg psArgv false
  ofExcept (androidNetcatStarted.loop output)

/-- The arguments that kill a process. -/
def killArgv (iPid : Int) : List Str :=
  ["adb".toList, "shell".toList, "su".toList, "-c".toList, "busybox".toList, "kill".toList,
    printInt iPid]

def androidKillNetCat : ExceptT Crash (Program Sys) Unit := do
  let iPid ← androidNetcatStarted
  if iPid > 0 then
    let _ ← execProg (killArgv iPid) false
  -- the pid that is left decides about a message only
  let _ ← androidNetcatStarted

/-- The arguments that start the process. -/
def nohupArgv : List Str :=
  ["adb".toList, "shell".toList, "su".toList, "-c".toList, "busybox".toList, "nohup".toList,
    androidNetCatStartCommand, "2>/dev/null".toList, "1>/dev/null".toList, "&".toList]

/-- 0 if netcat could be started, 3 otherwise. -/
def androidStartNetcat : ExceptT Crash (Program Sys) Int := do
  if (← androidNetcatStarted) = 0 then
    let _ ← execProg nohupArgv false
  let iStarted ← androidNetcatStarted
  return if iStarted ≠ 0 then 0 else 3

/-! ## The line of the process -/

/-- The first column of a line, as a C string. -/
def firstColumn (line : Str) : Str := leadingToken " \t".toList (c_str line)

/-- The line is not one of `grep`, and this number stands at its front. -/
def ListsPid (line : Str) (iPid : Int) : Prop :=
  ¬ "grep".toList <:+: line ∧ LeadingNumber (firstColumn line) iPid ∧
    -2 ^ 31 ≤ iPid ∧ iPid < 2 ^ 31

/-- The pid of the first line that lists one, or 0 if there is none. -/
def FirstPid (output : Output) (iPid : Int) : Prop :=
  (∃ pre line post, output = pre ++ line :: post ∧ (∀ l ∈ pre, ∀ n, ¬ ListsPid l n) ∧
    ListsPid line iPid) ∨
  (iPid = 0 ∧ ∀ line ∈ output, ∀ n, ¬ ListsPid line n)

/-- All lines are lines of `grep`, or the first other one fits the array of `tokenize` and lists a
pid. -/
def GoodListing (output : Output) : Prop :=
  (∀ line ∈ output, "grep".toList <:+: line) ∨
  ∃ pre line post, output = pre ++ line :: post ∧ (∀ l ∈ pre, "grep".toList <:+: l) ∧
    FitsArray line ∧ ∃ n, ListsPid line n

theorem c_str_firstColumn (line : Str) : c_str (firstColumn line) = firstColumn line :=
  c_str_of_not_mem fun h => not_mem_c_str line (leadingToken_subset (c_str line) h)

theorem tokenize_eq (line : Str) :
    tokenize line =
      if firstColumn line = [] then []
      else firstColumn line :: strtokAll " \t".toList (behindToken " \t".toList (c_str line)) :=
  strtokAll_eq_ite (c_str line)

/-- The pid is read exactly where the line fits the array and has a number in its first column. -/
theorem firstPid_eq_ok_iff {line : Str} {iPid : Int} :
    firstPid (tokenizeArray line) = .ok iPid ↔
      FitsArray line ∧ LeadingNumber (firstColumn line) iPid ∧ -2 ^ 31 ≤ iPid ∧ iPid < 2 ^ 31 := by
  by_cases hfits : FitsArray line
  · rw [tokenizeArray_of_fits hfits, and_iff_right hfits, ← stoi_eq_ok_iff, tokenize_eq]
    by_cases hcolumn : firstColumn line = []
    · have hempty : stoi [] = .error .invalid_argument := by decide
      rw [if_pos hcolumn, hcolumn, hempty]
      exact iff_of_false (nomatch ·) (nomatch ·)
    · rw [if_neg hcolumn, firstPid, c_str_firstColumn]
      cases stoi (firstColumn line) <;> simp [Except.mapError]
  · rw [tokenizeArray_of_not_fits hfits]
    exact iff_of_false (nomatch ·) fun h => hfits h.1

theorem find_grep_eq_none {line : Str} :
    find line "grep".toList 0 = none ↔ ¬ "grep".toList <:+: line := by
  rw [← find_zero_ne_none, not_not]

theorem loop_of_grep {pre : Output} (h : ∀ l ∈ pre, "grep".toList <:+: l) (output : Output) :
    androidNetcatStarted.loop (pre ++ output) = androidNetcatStarted.loop output := by
  induction pre with
  | nil => rfl
  | cons l pre ih =>
    have hl : ¬ find l "grep".toList 0 = none :=
      find_grep_eq_none.not_left.mpr (h l List.mem_cons_self)
    rw [List.cons_append, androidNetcatStarted.loop, if_neg hl]
    exact ih fun m hm => h m (List.mem_cons_of_mem l hm)

theorem loop_of_other {line : Str} (h : ¬ "grep".toList <:+: line) (output : Output) :
    androidNetcatStarted.loop (line :: output) = firstPid (tokenizeArray line) := by
  rw [androidNetcatStarted.loop, if_pos (find_grep_eq_none.mpr h)]

/-- All elements satisfy a test, or one is the first that does not. -/
theorem exists_first {α : Type} (p : α → Prop) [DecidablePred p] (l : List α) :
    (∀ a ∈ l, p a) ∨ ∃ pre a post, l = pre ++ a :: post ∧ (∀ b ∈ pre, p b) ∧ ¬ p a := by
  cases h : l.find? fun a => ¬ p a with
  | none =>
    rw [List.find?_eq_none] at h
    exact .inl fun a ha => by simpa using h a ha
  | some a =>
    obtain ⟨ha, pre, post, rfl, hpre⟩ := List.find?_eq_some_iff_append.mp h
    exact .inr ⟨pre, a, post, rfl, fun b hb => by simpa using hpre b hb, by simpa using ha⟩

theorem not_listsPid_of_grep {line : Str} (h : "grep".toList <:+: line) (n : Int) :
    ¬ ListsPid line n := fun hlists => hlists.1 h

theorem not_listsPid_of_error {line : Str} {e : Exception}
    (h : stoi (firstColumn line) = .error e) (n : Int) : ¬ ListsPid line n := by
  intro hlists
  rw [stoi_eq_ok_iff.mpr hlists.2] at h
  cases h

theorem goodListing_of_loop {output : Output} {iPid : Int}
    (h : androidNetcatStarted.loop output = .ok iPid) : GoodListing output := by
  rcases exists_first (fun line => "grep".toList <:+: line) output with
    hall | ⟨pre, line, post, rfl, hpre, hline⟩
  · exact .inl hall
  · rw [loop_of_grep hpre, loop_of_other hline] at h
    obtain ⟨hfits, hlists⟩ := firstPid_eq_ok_iff.mp h
    exact .inr ⟨pre, line, post, rfl, hpre, hfits, iPid, hline, hlists⟩

theorem loop_of_goodListing {output : Output} (h : GoodListing output) :
    ∃ iPid, androidNetcatStarted.loop output = .ok iPid ∧ FirstPid output iPid := by
  rcases h with hall | ⟨pre, line, post, rfl, hpre, hfits, iPid, hlists⟩
  · refine ⟨0, ?_, .inr ⟨rfl, fun line hline => not_listsPid_of_grep (hall line hline)⟩⟩
    have hloop := loop_of_grep hall []
    rw [List.append_nil] at hloop
    exact hloop
  · refine ⟨iPid, ?_, .inl ⟨pre, line, post, rfl, fun l hl => not_listsPid_of_grep (hpre l hl),
      hlists⟩⟩
    rw [loop_of_grep hpre, loop_of_other hlists.1]
    exact firstPid_eq_ok_iff.mpr ⟨hfits, hlists.2⟩

/-! ## The functions -/

section Runs

variable {ε β : Type} (env : Env ε) (w : World ε)

/-- What the pipeline prints. -/
def psOutput : Output := ((execProg psArgv false).run env.handle w).1.1

def afterPs : World ε := ((execProg psArgv false).run env.handle w).2

theorem androidNetcatStarted_run :
    androidNetcatStarted.run.run env.handle w =
      (androidNetcatStarted.loop (psOutput env w), afterPs env w) := by
  rw [androidNetcatStarted, run_lift_bind]
  exact run_ofExcept env (afterPs env w) (androidNetcatStarted.loop (psOutput env w))

/-- The search for the process returns the pid that it should exactly when the lines are good. -/
theorem androidNetcatStarted_iff :
    (∃ iPid, (androidNetcatStarted.run.run env.handle w).1 = .ok iPid ∧
      FirstPid (psOutput env w) iPid) ↔ GoodListing (psOutput env w) := by
  rw [androidNetcatStarted_run]
  constructor
  · rintro ⟨iPid, h, -⟩
    exact goodListing_of_loop h
  · exact loop_of_goodListing

/-- A host on which every program prints this. -/
def Env.printing (stream : Str) : Env Unit :=
  { Env.obliging with spawn := fun _ _ _ => (some (stream, 0), ()) }

/-- A refused `su` is no pid, and an empty line has no token. -/
theorem netcatStarted_crash :
    ((androidNetcatStarted.run.run
        (Env.printing "/system/bin/sh: su: not found\n".toList).handle World.start).1 =
      .error (.uncaught .invalid_argument) ∧
    (androidNetcatStarted.run.run (Env.printing "\n".toList).handle World.start).1 =
      .error .undefined) ∧
    FirstPid (psOutput (Env.printing "/system/bin/sh: su: not found\n".toList) World.start) 0 ∧
    FirstPid (psOutput (Env.printing "\n".toList) World.start) 0 := by
  have houtput : psOutput (Env.printing "/system/bin/sh: su: not found\n".toList) World.start =
      ["/system/bin/sh: su: not found".toList] := by decide +kernel
  have hempty : psOutput (Env.printing "\n".toList) World.start = [[]] := by decide +kernel
  refine ⟨by decide +kernel, .inr ⟨rfl, fun line hline => ?_⟩, .inr ⟨rfl, fun line hline => ?_⟩⟩
  · rw [houtput] at hline
    obtain rfl := List.mem_singleton.mp hline
    exact not_listsPid_of_error (e := .invalid_argument) (by decide)
  · rw [hempty] at hline
    obtain rfl := List.mem_singleton.mp hline
    exact not_listsPid_of_error (e := .invalid_argument) (by decide)

/-- The search has a result for good lines only. -/
theorem returns_search (f : Int → β) :
    Returns env w (do return f (← androidNetcatStarted)) ↔ GoodListing (psOutput env w) := by
  rw [returns_bind, androidNetcatStarted_run]
  constructor
  · rintro ⟨iPid, h, -⟩
    exact goodListing_of_loop h
  · intro h
    obtain ⟨iPid, hloop, -⟩ := loop_of_goodListing h
    exact ⟨iPid, hloop, f iPid, rfl⟩

/-- The world after a command that is run when its condition holds. -/
def afterIf (p : Prop) [Decidable p] (argv : List Str) : World ε :=
  if p then ((execProg argv false).run env.handle w).2 else w

theorem returns_search_after (p : Prop) [Decidable p] (argv : List Str) (f : Int → β) :
    Returns env w (do
      if p then
        let _ ← execProg argv false
      return f (← androidNetcatStarted)) ↔ GoodListing (psOutput env (afterIf env w p argv)) := by
  rw [← returns_search env _ f, afterIf]
  split
  · rw [Returns, run_lift_bind]
    rfl
  · rfl

/-- The unmounting searches twice, the second time among the lines behind the kill. -/
theorem returns_androidKillNetCat :
    Returns env w androidKillNetCat ↔
      ∃ iPid, androidNetcatStarted.loop (psOutput env w) = .ok iPid ∧
        GoodListing (psOutput env (afterIf env (afterPs env w) (iPid > 0) (killArgv iPid))) := by
  rw [androidKillNetCat, returns_bind, androidNetcatStarted_run]
  exact exists_congr fun iPid => and_congr_right fun _ =>
    returns_search_after env _ (iPid > 0) (killArgv iPid) fun _ => ()

/-- The start searches twice as well, the second time among the lines behind the `nohup`. -/
theorem returns_androidStartNetcat :
    Returns env w androidStartNetcat ↔
      ∃ iPid, androidNetcatStarted.loop (psOutput env w) = .ok iPid ∧
        GoodListing (psOutput env (afterIf env (afterPs env w) (iPid = 0) nohupArgv)) := by
  rw [androidStartNetcat, returns_bind, androidNetcatStarted_run]
  exact exists_congr fun iPid => and_congr_right fun _ =>
    returns_search_after env _ (iPid = 0) nohupArgv fun iStarted => if iStarted ≠ 0 then 0 else 3

end Runs

end AdbncFs
