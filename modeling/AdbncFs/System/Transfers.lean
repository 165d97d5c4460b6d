import AdbncFs.System.Linking

/-!
# What a transfer reports

The result of `adb push` and `adb pull` as the callbacks get it: it is taken from the lines
that adb writes to stderr and from its exit status. The statements are about every path of a
callback, so about all answers that adb, the device and the kernel can give, in whatever
order other threads come in between.
-/

namespace AdbncFs

open Text Interaction

/-! ## The lines of stderr -/

/-- The error that a line of stderr stands for. -/
def lineError (line : Str) : Option Int :=
  if find line ": Permission denied".toList 0 ≠ none then some (-EACCES)
  else if find line "does not exist".toList 0 ≠ none then some (-ENOENT)
  else none

/-- The error of the first line that stands for one. -/
def firstError (ls : List Str) : Option Int := ls.findSome? lineError

theorem lineError_neg {line : Str} {n : Int} (h : lineError line = some n) : n < 0 := by
  rw [lineError] at h
  split at h
  · cases h
    decide
  · split at h
    · cases h
      decide
    · cases h

theorem firstError_neg {ls : List Str} {n : Int} (h : firstError ls = some n) : n < 0 := by
  obtain ⟨line, -, hline⟩ := List.exists_of_findSome?_eq_some h
  exact lineError_neg hline

theorem loop_stdErr_cons {line : Str} (rest : Str) (hline : '\n' ∉ line) :
    (execProg.loop true (line ++ '\n' :: rest)).2 =
      (lineError line).or (execProg.loop true rest).2 := by
  rw [execProg.loop]
  split
  · rename_i hn
    rw [getline_append hline] at hn
    cases hn
  · rename_i l r hp
    rw [getline_append hline] at hp
    cases hp
    simp only [true_and, lineError]
    split
    · rfl
    · split <;> rfl

/-- The reading loop takes the error from the lines that are ended. -/
theorem loop_stdErr {ls : List Str} {t : Str} (hls : ∀ l ∈ ls, '\n' ∉ l) (ht : '\n' ∉ t) :
    (execProg.loop true (unlines ls ++ t)).2 = firstError ls := by
  induction ls with
  | nil =>
    rw [unlines, List.nil_append, execProg.loop]
    split
    · rfl
    · rename_i hp
      rw [getline_eq_none.mpr ht] at hp
      cases hp
  | cons l ls ih =>
    rw [unlines, List.append_assoc, List.cons_append, loop_stdErr_cons _ (hls l (by simp)),
      ih fun m hm => hls m (List.mem_cons_of_mem l hm), firstError, firstError,
      List.findSome?_cons]
    cases lineError l <;> rfl

/-- The first line with an error, when it is the last line, is ended by a line feed. -/
def MessageEnded (stream : Str) : Prop :=
  ∀ pre line, lines stream = pre ++ [line] → firstError pre = none → lineError line ≠ none →
    stream.getLast? = some '\n'

/-- The reading loop finds the error of the first line with one exactly when it is ended. -/
theorem messageEnded_iff (stream : Str) :
    MessageEnded stream ↔ (execProg.loop true stream).2 = firstError (lines stream) := by
  obtain ⟨ls, t, rfl, hls, ht⟩ := exists_unlines stream
  rw [loop_stdErr hls ht, MessageEnded, lines_unlines_append hls ht]
  have hend := unlines_append_ended_iff ls ht
  by_cases hnil : t = []
  · rw [if_pos hnil, List.append_nil]
    refine ⟨fun _ => rfl, fun _ pre line hlines _ _ => ?_⟩
    rcases hend.mpr hnil with h | h
    · subst hnil
      rw [List.append_nil] at h
      cases ls with
      | nil => simp at hlines
      | cons l ls => simp [unlines] at h
    · exact h
  · rw [if_neg hnil, firstError, firstError, List.findSome?_append]
    have hnot : (unlines ls ++ t).getLast? ≠ some '\n' := fun h => hnil (hend.mp (Or.inr h))
    have hone : [t].findSome? lineError = lineError t := by
      rw [List.findSome?_cons]
      cases lineError t <;> rfl
    rw [hone]
    constructor
    · intro h
      cases hfirst : ls.findSome? lineError with
      | some n => rfl
      | none =>
        by_contra hne
        exact hnot (h ls t rfl hfirst fun hn => hne (by rw [hn]; rfl))
    · intro h pre line hlines hpre hline
      obtain ⟨rfl, hlast⟩ := List.append_inj' hlines rfl
      obtain rfl := List.singleton_inj.mp hlast
      rw [firstError] at hpre
      rw [hpre, Option.none_or] at h
      exact absurd h.symm hline

/-! ## A transfer -/

/-- What adb gives: its stderr and its wait status, or `none` when it cannot be started. -/
abbrev Transfer := Option (Str × Int)

/-- adb exits with the number that `execProg` takes for a program that is not found. -/
def ExitsENOENT (status : Int) : Prop := WIFEXITED status ∧ WEXITSTATUS status = ENOENT

instance (status : Int) : Decidable (ExitsENOENT status) :=
  inferInstanceAs (Decidable (WIFEXITED status = true ∧ WEXITSTATUS status = ENOENT))

/-- The value that `execProg` stores for the caller, zero when it stores none. -/
def transferResult : Transfer → Int
  | none => - EIO
  | some (stream, status) =>
    if ExitsENOENT status then ENOENT else (execProg.loop true stream).2.getD 0

/-- The error that adb writes to stderr, if it writes one. -/
def Transfer.message : Transfer → Option Int
  | none => none
  | some (stream, _) => firstError (lines stream)

theorem execProg_path {argv : List Str} {es : List (Event Sys)} {r : Output × Option Int}
    (h : (execProg argv true).Path es r) :
    ∃ a : Transfer, es = [⟨(.spawn argv true : Sys.Op), a⟩] ∧ r.2.getD 0 = transferResult a := by
  obtain ⟨a, es₂, h₂, rfl⟩ := Program.path_send_bind.mp h
  refine ⟨a, ?_⟩
  cases a with
  | none =>
    obtain ⟨rfl, rfl⟩ := Program.path_pure.mp h₂
    exact ⟨rfl, rfl⟩
  | some x =>
    obtain ⟨stream, status⟩ := x
    dsimp only at h₂
    split at h₂
    · rename_i hexit
      obtain ⟨rfl, rfl⟩ := Program.path_pure.mp h₂
      have hresult : transferResult (some (stream, status)) = ENOENT := if_pos hexit
      rw [hresult]
      exact ⟨rfl, by simp [hexit.2]⟩
    · rename_i hexit
      obtain ⟨rfl, rfl⟩ := Program.path_pure.mp h₂
      exact ⟨rfl, (if_neg hexit).symm⟩

theorem execProg_answer {ε : Type} (env : Env ε) (argv : List Str) (w : World ε) :
    ((execProg argv true).run env.handle w).1.2.getD 0 =
      transferResult (env.spawn argv true w.env).1 := by
  obtain ⟨a, hevents, hresult⟩ := execProg_path (Program.path_trace env.handle _ w)
  have ha : (env.spawn argv true w.env).1 = a :=
    eq_of_heq (Sigma.mk.inj (List.cons.inj hevents).1).2
  rw [hresult, ha]

/-! ## The events of a call -/

/-- The transfers on a path. -/
def transfers (es : List (Event Sys)) : List Transfer :=
  es.filterMap fun
    | ⟨.spawn _ _, a⟩ => some a
    | _ => none

def errorOf {α : Type} : Except Int α → Option Int
  | .error errno => some errno
  | .ok _ => none

/-- The errors of the local `open` on a path. -/
def openErrors (es : List (Event Sys)) : List Int :=
  es.filterMap fun
    | ⟨.syscall (.open' _ _), r⟩ => errorOf r
    | _ => none

/-- The `errno` of each failing system call of a callback that transfers. -/
def errnos (es : List (Event Sys)) : List Int :=
  es.filterMap fun
    | ⟨.syscall (.open' _ _), r⟩ => errorOf r
    | ⟨.syscall (.fsync _), r⟩ => errorOf r
    | ⟨.syscall (.mknod _ _ _), r⟩ => errorOf r
    | _ => none

/-- `errno` is positive, as on every host. -/
def PositiveErrnos (es : List (Event Sys)) : Prop := ∀ errno ∈ errnos es, 0 < errno

instance (es : List (Event Sys)) : Decidable (PositiveErrnos es) :=
  inferInstanceAs (Decidable (∀ errno ∈ errnos es, 0 < errno))

theorem PositiveErrnos.pos {es : List (Event Sys)} (h : PositiveErrnos es) {e : Event Sys}
    {errno : Int} (he : e ∈ es) (herr : errno ∈ errnos [e]) : 0 < errno := by
  obtain ⟨e', he', hfound⟩ := List.mem_filterMap.mp herr
  obtain rfl := List.mem_singleton.mp he'
  exact h errno (List.mem_filterMap.mpr ⟨e', he, hfound⟩)

/-- Operations that are neither a transfer nor a system call. -/
def Sys.Op.Silent : Sys.Op → Prop
  | .spawn _ _ | .syscall _ => False
  | _ => True

theorem transfers_append (es ds : List (Event Sys)) :
    transfers (es ++ ds) = transfers es ++ transfers ds := List.filterMap_append

theorem openErrors_append (es ds : List (Event Sys)) :
    openErrors (es ++ ds) = openErrors es ++ openErrors ds := List.filterMap_append

theorem quiet_of_silent {es : List (Event Sys)} (h : ∀ e ∈ es, Sys.Op.Silent e.1) :
    transfers es = [] ∧ openErrors es = [] := by
  simp only [transfers, openErrors, List.filterMap_eq_nil_iff]
  constructor
  · rintro ⟨op, r⟩ he
    cases op with
    | spawn argv f => exact (h _ he).elim
    | _ => rfl
  · rintro ⟨op, r⟩ he
    cases op with
    | syscall call => exact (h _ he).elim
    | _ => rfl

theorem checkAccess_nonpos (g : Globals) (p : Str) (mask : Nat) {iRes : Int} (h : iRes ≤ 0)
    (tokens : List Str) : checkAccess g p mask iRes tokens ≤ 0 := by
  have haccess : ∀ (u : UserInfo) uid gid mode, -u.access uid gid mode mask ≤ 0 := by
    intro u uid gid mode
    rw [UserInfo.access]
    have htest : ∀ m, 0 ≤ UserInfo.testAccesss m mask := by
      intro m
      rw [UserInfo.testAccesss]
      split <;> decide
    have h1 := htest ((mode &&& S_IRWXU) >>> 6)
    have h2 := htest ((mode &&& S_IRWXG) >>> 3)
    have h3 := htest (mode &&& S_IRWXO)
    split
    · omega
    · split <;> omega
  unfold checkAccess
  split
  · split
    · decide
    · exact h
  · split
    · decide
    · split
      · split
        · decide
        · dsimp only
          split
          · exact haccess _ _ _ _
          · split
            · exact haccess _ _ _ _
            · split
              · decide
              · split <;> decide
      · decide

theorem statResult_nonpos (fTokens : Bool) (o : Output) : (statResult fTokens o).1 ≤ 0 := by
  rw [statResult]
  split
  · decide
  · split
    · dsimp only
      split
      · show (-ENOENT : Int) ≤ 0
        decide
      · exact le_rfl
    · exact le_rfl

theorem silent_statOutput (p : Str) : (statOutput p).Uses (S := Sys) Sys.Op.Silent :=
  uses_statOutput (fun _ => trivial) (fun _ _ => trivial) trivial

theorem doStat_path {p : Str} {fTokens : Bool} {es : List (Event Sys)} {r : Int × List Str}
    (h : (doStat p fTokens).Path es r) : (∀ e ∈ es, Sys.Op.Silent e.1) ∧ r.1 ≤ 0 := by
  obtain ⟨es₁, o, es₂, h₁, h₂, rfl⟩ := Program.path_bind.mp h
  obtain ⟨rfl, rfl⟩ := Program.path_pure.mp h₂
  rw [List.append_nil]
  exact ⟨h₁.of_uses (silent_statOutput p), statResult_nonpos _ _⟩

theorem access_path {g : Globals} {p : Str} {mask : Nat} {es : List (Event Sys)} {r : Int}
    (h : (adbnc_access g p mask).Path es r) : (∀ e ∈ es, Sys.Op.Silent e.1) ∧ r ≤ 0 := by
  obtain ⟨es₁, x, es₂, h₁, h₂, rfl⟩ := Program.path_bind.mp h
  obtain ⟨rfl, rfl⟩ := Program.path_pure.mp h₂
  obtain ⟨hsilent, hx⟩ := doStat_path h₁
  rw [List.append_nil]
  exact ⟨hsilent, checkAccess_nonpos g p mask hx _⟩

/-! ## The callbacks -/

/-- Neither a transfer nor a failing local `open`. -/
def Quiet (es : List (Event Sys)) : Prop := transfers es = [] ∧ openErrors es = []

theorem quiet_append {es ds : List (Event Sys)} (hes : Quiet es) (hds : Quiet ds) :
    Quiet (es ++ ds) := by
  rw [Quiet, transfers_append, openErrors_append, hes.1, hes.2, hds.1, hds.2]
  exact ⟨rfl, rfl⟩

/-- The result is that of the only transfer; without a transfer it is not positive. -/
def Reports (es : List (Event Sys)) (r : Int) : Prop :=
  Quiet es ∧ r ≤ 0 ∨ ∃ a, transfers es = [a] ∧ openErrors es = [] ∧ r = transferResult a

theorem Reports.prepend {es ds : List (Event Sys)} {r : Int} (h : Reports ds r) (hes : Quiet es) :
    Reports (es ++ ds) r := by
  rcases h with ⟨hds, hr⟩ | ⟨a, ht, ho, hr⟩
  · exact Or.inl ⟨quiet_append hes hds, hr⟩
  · refine Or.inr ⟨a, ?_, ?_, hr⟩
    · rw [transfers_append, hes.1, ht, List.nil_append]
    · rw [openErrors_append, hes.2, ho, List.nil_append]

theorem Reports.append {es ds : List (Event Sys)} {r : Int} (h : Reports es r) (hds : Quiet ds) :
    Reports (es ++ ds) r := by
  rcases h with ⟨hes, hr⟩ | ⟨a, ht, ho, hr⟩
  · exact Or.inl ⟨quiet_append hes hds, hr⟩
  · refine Or.inr ⟨a, ?_, ?_, hr⟩
    · rw [transfers_append, hds.1, ht, List.append_nil]
    · rw [openErrors_append, hds.2, ho, List.append_nil]

theorem reports_pure {es : List (Event Sys)} {a r : Int} (ha : a ≤ 0)
    (h : (pure a : Program Sys Int).Path es r) : Reports es r := by
  obtain ⟨rfl, rfl⟩ := Program.path_pure.mp h
  exact Or.inl ⟨⟨rfl, rfl⟩, ha⟩

theorem reports_errno {es : List (Event Sys)} {r errno : Int} (hpos : 0 < errno)
    (h : (pure (-errno) : Program Sys Int).Path es r) : Reports es r :=
  reports_pure (by omega) h

theorem reports_cmd {g : Globals} {fPush : Bool} {l r : Str} {es : List (Event Sys)}
    {iRes : Int} (h : (adbncPushPullCmd g fPush l r).Path es iRes) : Reports es iRes := by
  obtain ⟨es₁, x, es₂, h₁, h₂, rfl⟩ := Program.path_bind.mp h
  obtain ⟨hsilent, hx⟩ := access_path h₁
  apply Reports.prepend _ (quiet_of_silent hsilent)
  split at h₂
  · obtain ⟨es₃, y, es₄, h₃, h₄, rfl⟩ := Program.path_bind.mp h₂
    obtain ⟨a, rfl, ha⟩ := execProg_path h₃
    obtain ⟨rfl, rfl⟩ := Program.path_pure.mp h₄
    exact Or.inr ⟨a, rfl, rfl, ha⟩
  · exact reports_pure hx h₂

theorem reports_prepareCopy {g : Globals} {p : Str} {es : List (Event Sys)} {iRes : Int}
    (h : (prepareCopy g p).Path es iRes) : Reports es iRes := by
  obtain ⟨s, es₂, h₂, rfl⟩ := Program.path_send_bind.mp h
  apply Reports.prepend _ ⟨rfl, rfl⟩
  split at h₂
  · obtain ⟨u, es₄, h₄, rfl⟩ := Program.path_send_bind.mp h₂
    exact (reports_pure le_rfl h₄).prepend ⟨rfl, rfl⟩
  · obtain ⟨es₃, x, es₄, h₃, h₄, rfl⟩ := Program.path_bind.mp h₂
    obtain ⟨hsilent, hx⟩ := doStat_path h₃
    apply Reports.prepend _ (quiet_of_silent hsilent)
    dsimp only at h₄
    split at h₄
    · obtain ⟨es₅, found, es₆, h₅, h₆, rfl⟩ := Program.path_bind.mp h₄
      have hquiet : Quiet es₅ := by
        obtain ⟨a, es₈, h₈, rfl⟩ := Program.path_send_bind.mp h₅
        cases a with
        | ok v =>
          obtain ⟨rfl, -⟩ := Program.path_pure.mp h₈
          exact ⟨rfl, rfl⟩
        | error v =>
          obtain ⟨rfl, -⟩ := Program.path_pure.mp h₈
          exact ⟨rfl, rfl⟩
      apply Reports.prepend _ hquiet
      split at h₆
      · exact reports_pure le_rfl h₆
      · exact reports_cmd h₆
    · exact reports_pure hx h₄

/-- How a call comes to its result: from no transfer, from the only transfer, or from a local
`open` that fails after a transfer that gave zero. -/
def Ends (es : List (Event Sys)) (r : Int) : Prop :=
  transfers es = [] ∧ r ≤ 0 ∨ ∃ a, transfers es = [a] ∧
    (openErrors es = [] ∧ r = transferResult a ∨
      transferResult a = 0 ∧ ∃ errno, openErrors es = [errno] ∧ 0 < errno ∧ r = -errno)

theorem Reports.ends {es : List (Event Sys)} {r : Int} (h : Reports es r) : Ends es r := by
  rcases h with ⟨hes, hr⟩ | ⟨a, ht, ho, hr⟩
  · exact Or.inl ⟨hes.1, hr⟩
  · exact Or.inr ⟨a, ht, Or.inl ⟨ho, hr⟩⟩

theorem ends_open {g : Globals} {p : Str} {pFi : FileInfo} {es : List (Event Sys)} {r : Int}
    (h : (link g ((Callback.open' p pFi).program g)).Path es r) (herrno : PositiveErrnos es) :
    Ends es r := by
  rw [Callback.program, link_bind, link_liftM] at h
  obtain ⟨es₁, x, es₂, h₁, h₂, rfl⟩ := Program.path_bind.mp h
  rw [link_pure] at h₂
  obtain ⟨rfl, rfl⟩ := Program.path_pure.mp h₂
  rw [List.append_nil] at herrno ⊢
  obtain ⟨es₃, iRes, es₄, h₃, h₄, rfl⟩ := Program.path_bind.mp h₁
  have hcopy := reports_prepareCopy h₃
  split at h₄
  · rename_i hzero
    subst hzero
    obtain ⟨y, es₆, h₆, rfl⟩ := Program.path_send_bind.mp h₄
    cases y with
    | ok fh =>
      obtain ⟨rfl, rfl⟩ := Program.path_pure.mp h₆
      exact (hcopy.append ⟨rfl, rfl⟩).ends
    | error errno =>
      obtain ⟨rfl, rfl⟩ := Program.path_pure.mp h₆
      have hpos : 0 < errno :=
        herrno.pos (List.mem_append_right es₃ List.mem_cons_self) (List.mem_singleton_self errno)
      -- the local `open` comes after everything else
      rcases hcopy with ⟨hes, -⟩ | ⟨a, ht, ho, ha⟩
      · refine Or.inl ⟨?_, show -errno ≤ 0 by omega⟩
        rw [transfers_append, hes.1]
        rfl
      · refine Or.inr ⟨a, ?_, Or.inr ⟨ha.symm, errno, ?_, hpos, rfl⟩⟩
        · rw [transfers_append, ht]
          rfl
        · rw [openErrors_append, ho]
          rfl
  · obtain ⟨rfl, rfl⟩ := Program.path_pure.mp h₄
    exact (hcopy.append ⟨rfl, rfl⟩).ends

/-- After a transfer only the entry and the cache are changed, and the result is kept. -/
def Keeps (f : Int → Program Sys Int) : Prop :=
  ∀ a es r, (f a).Path es r → Quiet es ∧ r = a

theorem keeps_pure : Keeps fun a => pure a := by
  intro a es r h
  obtain ⟨rfl, rfl⟩ := Program.path_pure.mp h
  exact ⟨⟨rfl, rfl⟩, rfl⟩

theorem keeps_op (op : Sys.Op) (hop : op.Silent) {f : Int → Program Sys Int} (hf : Keeps f) :
    Keeps fun a => Program.send (S := Sys) op >>= fun _ => f a := by
  intro a es r h
  obtain ⟨x, es₂, h₂, rfl⟩ := Program.path_send_bind.mp h
  obtain ⟨hquiet, hr⟩ := hf a es₂ r h₂
  exact ⟨quiet_append (quiet_of_silent (by simpa using hop)) hquiet, hr⟩

theorem Keeps.reports {f : Int → Program Sys Int} (hf : Keeps f) {p : Program Sys Int}
    (hp : ∀ {es r}, p.Path es r → Reports es r) {es : List (Event Sys)} {r : Int}
    (h : (p >>= f).Path es r) : Reports es r := by
  obtain ⟨es₁, a, es₂, h₁, h₂, rfl⟩ := Program.path_bind.mp h
  obtain ⟨hquiet, rfl⟩ := hf a es₂ r h₂
  exact (hp h₁).append hquiet

theorem reports_entryFlush {g : Globals} (e : FileStatus.Entry) {p l : Str}
    {es : List (Event Sys)} {r : Int} (h : (link g (e.flush p l)).Path es r) :
    Reports es r := by
  have hend : Keeps fun a => setFileStatus (·.modify p (·.setPendingOpen false false)) >>= fun _ =>
      pure a := keeps_op (.setFileStatus _) trivial keeps_pure
  have hrenamed : Keeps fun a => setFileStatus (·.modify p (·.clearRenamed)) >>= fun _ =>
      pure a >>= fun a => setFileStatus (·.modify p (·.setPendingOpen false false)) >>= fun _ =>
        pure a := keeps_op (.setFileStatus _) trivial hend
  simp only [FileStatus.Entry.flush, link_ite, link_bind, link_liftM, link_pure,
    link_adbncPush] at h
  split at h
  · split at h
    · split at h
      · exact hrenamed.reports reports_cmd h
      · exact hrenamed.reports (reports_pure le_rfl) h
    · split at h
      · exact hend.reports reports_cmd h
      · exact hend.reports (reports_pure le_rfl) h
  · exact reports_pure le_rfl h

theorem reports_statusFlush {g : Globals} {p l : Str} {es : List (Event Sys)} {r : Int}
    (h : (link g (FileStatus.flush p l)).Path es r) : Reports es r := by
  simp only [FileStatus.flush, link_bind, link_liftM] at h
  obtain ⟨s, es₂, h₂, rfl⟩ := Program.path_send_bind.mp h
  apply Reports.prepend _ ⟨rfl, rfl⟩
  cases hp : s p with
  | none =>
    rw [hp] at h₂
    exact reports_pure le_rfl h₂
  | some e =>
    rw [hp] at h₂
    exact reports_entryFlush e h₂

theorem reports_flushPending {g : Globals} {p : Str} {es : List (Event Sys)} {r : Int}
    (h : (link g (adbnc_flush.flushPending g p)).Path es r) : Reports es r := by
  simp only [adbnc_flush.flushPending, link_bind, link_liftM, link_ite] at h
  obtain ⟨s, es₂, h₂, rfl⟩ := Program.path_send_bind.mp h
  apply Reports.prepend _ ⟨rfl, rfl⟩
  split at h₂
  · obtain ⟨u, es₄, h₄, rfl⟩ := Program.path_send_bind.mp h₂
    exact (reports_statusFlush h₄).prepend ⟨rfl, rfl⟩
  · exact reports_statusFlush h₂

theorem reports_flush {g : Globals} {p : Str} {pFi : FileInfo} {es : List (Event Sys)} {r : Int}
    (h : (link g (adbnc_flush g p pFi)).Path es r) (herrno : PositiveErrnos es) :
    Reports es r := by
  rw [adbnc_flush, link_bind, link_liftM] at h
  obtain ⟨x, es₂, h₂, rfl⟩ := Program.path_send_bind.mp h
  apply Reports.prepend _ ⟨rfl, rfl⟩
  cases x with
  | error errno =>
    dsimp only at h₂
    rw [link_ite] at h₂
    split at h₂
    · exact reports_flushPending h₂
    · exact reports_errno (herrno.pos List.mem_cons_self (List.mem_singleton_self errno)) h₂
  | ok v => exact reports_flushPending h₂

theorem reports_fsync {g : Globals} {p : Str} {pFi : FileInfo} {es : List (Event Sys)} {r : Int}
    (h : (link g (adbnc_fsync g p pFi)).Path es r) (herrno : PositiveErrnos es) :
    Reports es r := by
  have hend : Keeps fun a => setFileStatus (·.setPendingOpen p false false) >>= fun _ =>
      invalidate p >>= fun _ => pure a :=
    keeps_op (.setFileStatus _) trivial (keeps_op (.invalidate p) trivial keeps_pure)
  rw [adbnc_fsync, link_bind, link_liftM] at h
  obtain ⟨x, es₂, h₂, rfl⟩ := Program.path_send_bind.mp h
  apply Reports.prepend _ ⟨rfl, rfl⟩
  cases x with
  | error errno =>
    exact reports_errno (herrno.pos List.mem_cons_self (List.mem_singleton_self errno)) h₂
  | ok v =>
    simp only [link_bind, link_liftM, link_ite, link_adbncPush, link_pure] at h₂
    obtain ⟨s, es₄, h₄, rfl⟩ := Program.path_send_bind.mp h₂
    apply Reports.prepend _ ⟨rfl, rfl⟩
    split at h₄
    · exact hend.reports reports_cmd h₄
    · exact reports_pure le_rfl h₄

theorem reports_mknod {g : Globals} {p : Str} {mode rdev : Nat} {es : List (Event Sys)} {r : Int}
    (h : (link g (adbnc_mknod g p mode rdev)).Path es r) (herrno : PositiveErrnos es) :
    Reports es r := by
  have hend : Keeps fun a => invalidate p >>= fun _ => pure a :=
    keeps_op (.invalidate p) trivial keeps_pure
  have hsync : Keeps fun a => if a = 0 then adbncShell .sync >>= fun _ => invalidate p >>= fun _ =>
      pure a else invalidate p >>= fun _ => pure a := by
    intro a es r hpath
    dsimp only at hpath
    split at hpath
    · exact keeps_op (.shell .sync) trivial hend a es r hpath
    · exact hend a es r hpath
  simp only [adbnc_mknod, link_bind, link_liftM] at h
  obtain ⟨x, es₂, h₂, rfl⟩ := Program.path_send_bind.mp h
  apply Reports.prepend _ ⟨rfl, rfl⟩
  cases x with
  | error errno =>
    exact reports_errno (herrno.pos List.mem_cons_self (List.mem_singleton_self errno)) h₂
  | ok v =>
    simp only [link_bind, link_liftM, link_adbncPush, link_ite, link_pure] at h₂
    exact hsync.reports reports_cmd h₂

/-! ## When errors are reported faithfully -/

/-- The result is zero or a negative `errno`, and where adb writes an error it is this one. -/
structure Faithful (es : List (Event Sys)) (r : Int) : Prop where
  nonpos : r ≤ 0
  message : ∀ a ∈ transfers es, ∀ n, a.message = some n → r = n

/-- adb does not exit with `ENOENT`, and an error that it writes is in an ended line or is that
of the local `open`. -/
def Settled (es : List (Event Sys)) : Transfer → Prop
  | none => True
  | some (stream, status) => ¬ ExitsENOENT status ∧
    (MessageEnded stream ∨ ∃ errno ∈ openErrors es, firstError (lines stream) = some (-errno))

theorem loop_nonpos (stream : Str) : (execProg.loop true stream).2.getD 0 ≤ 0 := by
  obtain ⟨ls, t, rfl, hls, ht⟩ := exists_unlines stream
  rw [loop_stdErr hls ht]
  cases h : firstError ls with
  | none => exact le_rfl
  | some n =>
    have := firstError_neg h
    rw [Option.getD_some]
    omega

/-- What the reading loop finds is the first error. -/
theorem firstError_of_loop {stream : Str} {n : Int} (h : (execProg.loop true stream).2 = some n) :
    firstError (lines stream) = some n := by
  obtain ⟨ls, t, rfl, hls, ht⟩ := exists_unlines stream
  rw [loop_stdErr hls ht, firstError] at h
  rw [lines_unlines_append hls ht, firstError, List.findSome?_append, h, Option.some_or]

theorem Ends.faithful_iff {es : List (Event Sys)} {r : Int} (h : Ends es r) :
    Faithful es r ↔ ∀ a ∈ transfers es, Settled es a := by
  have hiff : Faithful es r ↔ r ≤ 0 ∧ ∀ a ∈ transfers es, ∀ n, a.message = some n → r = n :=
    ⟨fun hf => ⟨hf.nonpos, hf.message⟩, fun hf => ⟨hf.1, hf.2⟩⟩
  rcases h with ⟨ht, hr⟩ | ⟨a, ht, hends⟩
  · rw [hiff, ht]
    simp [hr]
  · rw [hiff, ht, List.forall_mem_singleton, List.forall_mem_singleton]
    cases a with
    | none =>
      rcases hends with ⟨-, rfl⟩ | ⟨ha, -⟩
      · simp [transferResult, Transfer.message, Settled, EIO]
      · exact absurd ha (by decide)
    | some x =>
      obtain ⟨stream, status⟩ := x
      rw [Transfer.message, Settled, messageEnded_iff]
      by_cases hexit : ExitsENOENT status
      · have hresult : transferResult (some (stream, status)) = ENOENT := if_pos hexit
        rw [hresult] at hends
        rcases hends with ⟨-, rfl⟩ | ⟨ha, -⟩
        · simp [hexit, ENOENT]
        · exact absurd ha (by decide)
      · have hresult : transferResult (some (stream, status)) =
            (execProg.loop true stream).2.getD 0 := if_neg hexit
        have hnonpos := loop_nonpos stream
        have hneg : ∀ n, firstError (lines stream) = some n → n < 0 := fun n => firstError_neg
        have hfirst : ∀ n, (execProg.loop true stream).2 = some n →
            firstError (lines stream) = some n := fun n => firstError_of_loop
        rw [hresult] at hends
        generalize (execProg.loop true stream).2 = found at hends hnonpos hfirst
        generalize firstError (lines stream) = first at hneg hfirst
        rcases hends with ⟨ho, rfl⟩ | ⟨ha, errno, ho, hpos, rfl⟩
        · -- the result is the error of an ended line, or zero
          rw [ho]
          simp only [hnonpos, hexit, not_false_eq_true, true_and, List.not_mem_nil, false_and,
            exists_false, or_false]
          constructor
          · intro h
            cases found with
            | some m => exact (hfirst m rfl).symm
            | none =>
              cases first with
              | none => rfl
              | some n =>
                have hn := hneg n rfl
                have hr : (0 : Int) = n := h n rfl
                omega
          · rintro rfl n rfl
            rfl
        · -- no ended line has an error, and the result is that of the local open
          have hnone : found = none := by
            cases found with
            | none => rfl
            | some m =>
              have hm := hneg m (hfirst m rfl)
              rw [Option.getD_some] at ha
              omega
          rw [ho, hnone]
          have hle : -errno ≤ 0 := by omega
          simp only [hle, hexit, not_false_eq_true, true_and, List.mem_singleton,
            exists_eq_left]
          cases first with
          | none => simp
          | some n => simp [eq_comm]

/-- `adbncPushPullCmd` and the callbacks that make a transfer. -/
inductive Transferring (g : Globals) : Program Sys Int → Prop
  | cmd (fPush : Bool) (l r : Str) : Transferring g (adbncPushPullCmd g fPush l r)
  | open' (p : Str) (pFi : FileInfo) : Transferring g (link g ((Callback.open' p pFi).program g))
  | flush (p : Str) (pFi : FileInfo) : Transferring g (link g ((Callback.flush p pFi).program g))
  | fsync (p : Str) (pFi : FileInfo) : Transferring g (link g ((Callback.fsync p pFi).program g))
  | mknod (p : Str) (mode rdev : Nat) :
    Transferring g (link g ((Callback.mknod p mode rdev).program g))

/-- Errors of transfers are reported faithfully exactly when the transfers are settled. -/
theorem transfer_reported_iff {g : Globals} {p : Program Sys Int} (hp : Transferring g p)
    {es : List (Event Sys)} {r : Int} (hpath : p.Path es r) (herrno : PositiveErrnos es) :
    Faithful es r ↔ ∀ a ∈ transfers es, Settled es a := by
  apply Ends.faithful_iff
  cases hp with
  | cmd fPush l r => exact (reports_cmd hpath).ends
  | open' p pFi => exact ends_open hpath herrno
  | flush p pFi => exact (reports_flush hpath herrno).ends
  | fsync p pFi => exact (reports_fsync hpath herrno).ends
  | mknod p mode rdev => exact (reports_mknod hpath herrno).ends

/-- A host on which adb writes `stream` and ends with `status`. -/
def Env.adb (stream : Str) (status : Int) : Env Unit :=
  { Env.obliging with spawn := fun _ _ _ => (some (stream, status), ()) }

/-- The pull of `/a` on such a host. -/
def pullA (stream : Str) (status : Int) : Int × World Unit :=
  (adbncPull exampleGlobals "/a".toList (exampleGlobals.localPath "/a".toList)).run
    (Env.adb stream status).handle World.start

theorem transfer_reported_ended :
    Faithful ((adbncPull exampleGlobals "/a".toList (exampleGlobals.localPath "/a".toList)).trace
        (Env.adb "remote object '/a' does not exist\n".toList 256).handle World.start)
      (pullA "remote object '/a' does not exist\n".toList 256).1 := by
  refine (transfer_reported_iff (g := exampleGlobals) (.cmd _ _ _) (Program.path_trace _ _ _)
    (by decide +kernel)).mpr ?_
  have htransfers : transfers ((adbncPull exampleGlobals "/a".toList
      (exampleGlobals.localPath "/a".toList)).trace
        (Env.adb "remote object '/a' does not exist\n".toList 256).handle World.start) =
      [some ("remote object '/a' does not exist\n".toList, 256)] := by decide +kernel
  intro a ha
  rw [adbncPull] at htransfers
  rw [htransfers, List.mem_singleton] at ha
  subst ha
  exact ⟨by decide, Or.inl ((messageEnded_iff _).mpr (by decide +kernel))⟩

/-- An exit status of 2 gives a positive result, and a message in a line that is not ended is
lost. -/
theorem transfer_misreported :
    (pullA [] 512).1 = 2 ∧ (pullA "remote object '/a' does not exist".toList 256).1 = 0 ∧
      firstError (lines "remote object '/a' does not exist".toList) = some (-ENOENT) := by
  decide +kernel

end AdbncFs
