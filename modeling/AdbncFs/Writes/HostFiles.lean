import AdbncFs.System.Transfers
import AdbncFs.Writes.Opening

/-!
# Opening and the files of the host

`adbnc_open` asks `fileExists` for the path on the device, and `fileExists` looks at the host.
So a host file that happens to have the name of a device file takes the place of the local
copy: it is not pulled. Two hosts that differ only outside the temporary directory are one
environment with two answers to this question. `open_independent_iff` says when an open does
not depend on them: when the question is not put, when the answers agree, or when the pull
would make no difference.
-/

namespace AdbncFs

open Text Interaction

variable {σ α : Type}

/-- The files of the host outside the temporary directory, by their paths. -/
abbrev Outside := Str → Bool

/-- A host with other files beside: `stat` finds them where the path does not lead into the
temporary directory. Everything else is as it is without them. -/
def Env.beside (env : Env σ) (inside : Str → Bool) : Env (σ × Outside) where
  time e := ((env.time e.1).1, ((env.time e.1).2, e.2))
  shell c e := ((env.shell c e.1).1, ((env.shell c e.1).2, e.2))
  spawn argv fUseStdErr e :=
    ((env.spawn argv fUseStdErr e.1).1, ((env.spawn argv fUseStdErr e.1).2, e.2))
  syscall
    | .stat p, e =>
      if inside p then ((env.syscall (.stat p) e.1).1, ((env.syscall (.stat p) e.1).2, e.2))
      else (if e.2 p then .ok 0 else .error ENOENT, e)
    | .open' path flags, e =>
      ((env.syscall (.open' path flags) e.1).1, ((env.syscall (.open' path flags) e.1).2, e.2))
    | .close fd, e => ((env.syscall (.close fd) e.1).1, ((env.syscall (.close fd) e.1).2, e.2))
    | .fsync fd, e => ((env.syscall (.fsync fd) e.1).1, ((env.syscall (.fsync fd) e.1).2, e.2))
    | .pread fd n o, e =>
      ((env.syscall (.pread fd n o) e.1).1, ((env.syscall (.pread fd n o) e.1).2, e.2))
    | .pwrite fd d o, e =>
      ((env.syscall (.pwrite fd d o) e.1).1, ((env.syscall (.pwrite fd d o) e.1).2, e.2))
    | .truncate path n, e =>
      ((env.syscall (.truncate path n) e.1).1, ((env.syscall (.truncate path n) e.1).2, e.2))
    | .mknod path m d, e =>
      ((env.syscall (.mknod path m d) e.1).1, ((env.syscall (.mknod path m d) e.1).2, e.2))
    | .unlink path, e =>
      ((env.syscall (.unlink path) e.1).1, ((env.syscall (.unlink path) e.1).2, e.2))

/-- The same caches, device, clock and temporary directory, with these files beside. -/
def World.beside (w : World σ) (h : Outside) : World (σ × Outside) :=
  ⟨w.fileCache, w.fileStatus, (w.env, h)⟩

/-- The operation does not ask for a path outside the temporary directory. -/
def Sys.Op.Indoors (inside : Str → Bool) : Sys.Op → Prop
  | .syscall (.stat p) => inside p = true
  | _ => True

variable {env : Env σ} {inside : Str → Bool}

theorem handle_beside {op : Sys.Op} (hop : op.Indoors inside) (w : World σ) (h : Outside) :
    (env.beside inside).handle op (w.beside h) =
      ((env.handle op w).1, (env.handle op w).2.beside h) := by
  cases op with
  | syscall call =>
    cases call with
    | stat p =>
      have hin : inside p = true := hop
      simp only [Env.handle, Env.beside, World.beside, hin, if_true]
    | _ => rfl
  | _ => rfl

/-- A program that stays indoors does not see the other files. -/
theorem run_beside {p : Program Sys α} (hp : p.Uses (S := Sys) (Sys.Op.Indoors inside))
    (w : World σ) (h : Outside) :
    p.run (env.beside inside).handle (w.beside h) =
      ((p.run env.handle w).1, (p.run env.handle w).2.beside h) := by
  induction p generalizing w with
  | ret a => rfl
  | call op k ih =>
    simp only [Program.run, handle_beside hp.1]
    exact ih _ (hp.2 _) _

/-! ## The parts of an open -/

/-- The local `open` at the end. -/
def openLocal (g : Globals) (pcPath : Str) (pFi : FileInfo) : Program Sys Int := do
  match ← syscall (.open' (g.localPath pcPath) pFi.flags) with
  | .ok _ => return 0
  | .error errno => return -errno

/-- The file is pulled, and then the local copy is opened. -/
def pullAndOpen (g : Globals) (pcPath : Str) (pFi : FileInfo) : Program Sys Int := do
  let iRes ← adbncPull g pcPath (g.localPath pcPath)
  if iRes = 0 then openLocal g pcPath pFi else return iRes

theorem indoors_doStat (p : Str) (fTokens : Bool) :
    (doStat p fTokens).Uses (S := Sys) (Sys.Op.Indoors inside) :=
  uses_doStat (fun _ => trivial) (fun _ _ => trivial) trivial fTokens

/-- The host is asked for the path of the device: it does not lead into the temporary
directory, is not marked as truncated, and exists on the device. -/
structure Consults (env : Env σ) (inside : Str → Bool) (pcPath : Str) (w : World σ) : Prop where
  outside : inside pcPath = false
  notTruncated : w.fileStatus.truncated pcPath = false
  exists_device : ((statOutput pcPath).run env.handle w).1 ≠ []

/-- Without tokens `doStat` only asks whether there is any output. -/
theorem doStat_zero_iff (env : Env σ) (p : Str) (w : World σ) :
    ((doStat p false).run env.handle w).1.1 = 0 ↔ ((statOutput p).run env.handle w).1 ≠ [] := by
  rw [doStat, Program.run_bind, Program.run_pure]
  dsimp only
  unfold statResult
  split
  · rename_i hnil
    simp [hnil, ENOENT]
  · rename_i hnil
    simp [hnil]

/-- The end of `adbnc_open`, with the handle. -/
def openHandle (g : Globals) (pcPath : Str) (pFi : FileInfo) (iRes : Int) :
    Program Sys (Int × Option Int) := do
  if iRes = 0 then
    match ← syscall (.open' (g.localPath pcPath) pFi.flags) with
    | .ok fh => return (0, some fh)
    | .error errno => return (-errno, some (-1))
  else return (iRes, none)

theorem adbnc_open_eq (g : Globals) (p : Str) (pFi : FileInfo) :
    adbnc_open g p pFi = prepareCopy g p >>= openHandle g p pFi := rfl

theorem indoors_openHandle (g : Globals) (p : Str) (pFi : FileInfo) (iRes : Int) :
    (openHandle g p pFi iRes).Uses (S := Sys) (Sys.Op.Indoors inside) := by
  rw [openHandle]
  split
  · refine Program.uses_bind (Program.uses_send trivial) fun r => ?_
    cases r <;> exact Program.uses_pure _
  · exact Program.uses_pure _

theorem indoors_prepareCopy (g : Globals) {p : Str} (hin : inside p = true) :
    (prepareCopy g p).Uses (S := Sys) (Sys.Op.Indoors inside) :=
  uses_prepareCopy (fun _ => trivial) (fun _ _ => trivial) g trivial trivial (fun _ => trivial)
    hin trivial

theorem run_prepareCopy_indoors (g : Globals) {p : Str} {w : World σ}
    (hc : ¬ Consults env inside p w) (h : Outside) :
    (prepareCopy g p).run (env.beside inside).handle (w.beside h) =
      (((prepareCopy g p).run env.handle w).1,
        ((prepareCopy g p).run env.handle w).2.beside h) := by
  cases hin : inside p with
  | true => exact run_beside (indoors_prepareCopy g hin) w h
  | false =>
    cases htrunc : w.fileStatus.truncated p with
    | true =>
      have htrunc' : (w.beside h).fileStatus.truncated p = true := htrunc
      simp only [prepareCopy, Program.run_bind, run_fileStatus, htrunc, htrunc', if_true]
      rfl
    | false =>
      have htrunc' : (w.beside h).fileStatus.truncated p = false := htrunc
      have hstat : ((doStat p false).run env.handle w).1.1 ≠ 0 := fun hz =>
        hc ⟨hin, htrunc, (doStat_zero_iff env p w).mp hz⟩
      simp only [prepareCopy, Program.run_bind, run_fileStatus, htrunc, htrunc',
        Bool.false_eq_true, if_false, run_beside (indoors_doStat p false) w h, if_neg hstat,
        Program.run_pure]

/-- Without the question the open is the same for all files beside. -/
theorem run_open_indoors (g : Globals) {p : Str} (pFi : FileInfo) {w : World σ}
    (hc : ¬ Consults env inside p w) (h : Outside) :
    (adbnc_open g p pFi).run (env.beside inside).handle (w.beside h) =
      (((adbnc_open g p pFi).run env.handle w).1,
        ((adbnc_open g p pFi).run env.handle w).2.beside h) := by
  rw [adbnc_open_eq, Program.run_bind, Program.run_bind, run_prepareCopy_indoors g hc h,
    run_beside (indoors_openHandle g p pFi _)]

theorem run_openHandle (env : Env σ) (g : Globals) (p : Str) (pFi : FileInfo) (iRes : Int)
    (w : World σ) :
    ((openHandle g p pFi iRes).run env.handle w).1.1 =
        ((if iRes = 0 then openLocal g p pFi else pure iRes).run env.handle w).1 ∧
      ((openHandle g p pFi iRes).run env.handle w).2 =
        ((if iRes = 0 then openLocal g p pFi else pure iRes).run env.handle w).2 := by
  rw [openHandle]
  split
  · rw [openLocal, Program.run_bind, Program.run_bind, run_syscall]
    dsimp only
    split <;> exact ⟨rfl, rfl⟩
  · exact ⟨rfl, rfl⟩

/-- Where the host is asked, its answer decides whether the file is pulled. -/
theorem run_open_consults (g : Globals) {p : Str} (pFi : FileInfo) {w : World σ}
    (hc : Consults env inside p w) (h : Outside) :
    let w' := ((doStat p false).run env.handle w).2
    let r := (if h p then openLocal g p pFi else pullAndOpen g p pFi).run env.handle w'
    ((adbnc_open g p pFi).run (env.beside inside).handle (w.beside h)).1.1 = r.1 ∧
      ((adbnc_open g p pFi).run (env.beside inside).handle (w.beside h)).2 = r.2.beside h := by
  intro w' r
  have hstat : (fileExists p).run (env.beside inside).handle (w'.beside h) =
      (h p, w'.beside h) := by
    have hanswer : (syscall (.stat p)).run (env.beside inside).handle (w'.beside h) =
        ((if h p then .ok 0 else .error ENOENT : Except Int Int), w'.beside h) := by
      rw [run_syscall]
      simp only [Env.beside, World.beside, hc.outside, Bool.false_eq_true, if_false]
      rfl
    rw [fileExists, Program.run_bind, hanswer]
    cases h p <;> rfl
  have htrunc : (w.beside h).fileStatus.truncated p = false := hc.notTruncated
  have hprepare : (prepareCopy g p).run (env.beside inside).handle (w.beside h) =
      (if h p then pure 0 else adbncPull g p (g.localPath p)).run (env.beside inside).handle
        (w'.beside h) := by
    simp only [prepareCopy, Program.run_bind, run_fileStatus, htrunc, Bool.false_eq_true,
      if_false, run_beside (indoors_doStat p false) w h,
      (doStat_zero_iff env p w).mpr hc.exists_device, if_true]
    rw [hstat]
  have hpull : (adbncPull g p (g.localPath p)).Uses (S := Sys) (Sys.Op.Indoors inside) :=
    uses_adbncPushPullCmd (fun _ => trivial) (fun _ _ => trivial) g _ _ _ trivial trivial
  rw [adbnc_open_eq, Program.run_bind, hprepare]
  cases hh : h p with
  | true =>
    have hr : r = (openLocal g p pFi).run env.handle w' := by simp only [r, hh, if_true]
    obtain ⟨hres, hworld⟩ := run_openHandle env g p pFi 0 w'
    rw [if_pos rfl] at hres hworld
    rw [if_pos rfl, Program.run_pure, run_beside (indoors_openHandle g p pFi 0), hr, hres, hworld]
    exact ⟨rfl, rfl⟩
  | false =>
    have hr : r = (pullAndOpen g p pFi).run env.handle w' := by
      simp only [r, hh, Bool.false_eq_true, if_false]
    rw [pullAndOpen, Program.run_bind] at hr
    rw [if_neg Bool.false_ne_true, run_beside hpull]
    dsimp only
    obtain ⟨hres, hworld⟩ := run_openHandle env g p pFi
      ((adbncPull g p (g.localPath p)).run env.handle w').1
      ((adbncPull g p (g.localPath p)).run env.handle w').2
    rw [run_beside (indoors_openHandle g p pFi _), hr, hres, hworld]
    exact ⟨rfl, rfl⟩

/-! ## A pull that makes no difference -/

/-- What the local `open` gives for `adbnc_open` to return. -/
def openAnswer (env : Env σ) (l : Str) (pFi : FileInfo) (e : σ) : Int :=
  match (env.syscall (.open' l pFi.flags) e).1 with
  | .ok _ => 0
  | .error errno => -errno

section

variable (v : HostView env) (g : Globals) (p : Str) (pFi : FileInfo) (w : World σ)

/-- What `adbnc_access` gives for reading `p`, by the output of the stat command. -/
def readAccess : Int :=
  checkAccess g p R_OK (statResult true (v.known w p)).1 (statResult true (v.known w p)).2

/-- What adb answers to the pull of `p`, and what is outside then. The attributes are asked for
once more before that. -/
def pullAnswer (env : Env σ) : Transfer × σ :=
  env.spawn (adbArgv false (g.localPath p) p) true ((statOutput p).run env.handle w).2.env

/-- The device has nothing at `p` to pull, or what the local copy has as well. -/
def NothingNew : Prop :=
  (v.files w.env).remote p = none ∨
    (v.files w.env).remote p = (v.files w.env).content (g.localPath p)

/-- The pull of an open makes no difference, since the local `open` without it gives what the
open gives with it. -/
inductive PullIdle : Prop
  /-- The file may not be read, and the local copy cannot be opened for the same reason. -/
  | refused (haccess : readAccess v g p w ≠ 0)
      (hopen : openAnswer env (g.localPath p) pFi w.env = readAccess v g p w)
  /-- adb reports an error, and the local copy cannot be opened for the same reason. -/
  | failed (haccess : readAccess v g p w = 0) (hnew : NothingNew v g p w)
      (hadb : transferResult (pullAnswer g p w env).1 ≠ 0)
      (hopen : openAnswer env (g.localPath p) pFi w.env =
        transferResult (pullAnswer g p w env).1)
  /-- adb reports no error, and the local copy opens as well before as after it. -/
  | pulled (haccess : readAccess v g p w = 0) (hnew : NothingNew v g p w)
      (hadb : transferResult (pullAnswer g p w env).1 = 0)
      (hopen : openAnswer env (g.localPath p) pFi w.env =
        openAnswer env (g.localPath p) pFi (pullAnswer g p w env).2)

variable {pFi}

theorem run_openLocal (hplain : pFi.Plain) :
    ((openLocal g p pFi).run env.handle w).1 = openAnswer env (g.localPath p) pFi w.env ∧
      (v.files ((openLocal g p pFi).run env.handle w).2.env).content =
        (v.files w.env).content := by
  have hcontent := v.open_content (g.localPath p) pFi w.env hplain
  rw [openLocal, Program.run_bind, run_syscall, openAnswer]
  cases (env.syscall (.open' (g.localPath p) pFi.flags) w.env).1 with
  | ok fh => exact ⟨rfl, hcontent⟩
  | error errno => exact ⟨rfl, hcontent⟩

/-- The pull goes by the access and then by what adb answers. -/
theorem run_pull :
    ((adbncPull g p (g.localPath p)).run env.handle w).1 =
        (if readAccess v g p w = 0 then transferResult (pullAnswer g p w env).1
          else readAccess v g p w) ∧
      (readAccess v g p w = 0 →
        ((adbncPull g p (g.localPath p)).run env.handle w).2.env = (pullAnswer g p w env).2) := by
  have hknown := (v.statOutput_run p w).1
  refine ⟨?_, fun haccess => ?_⟩
  · rw [adbncPull, adbncPushPullCmd, Program.run_bind, Program.run_ite]
    simp only [Bool.false_eq_true, if_false, run_access, hknown]
    change (if readAccess v g p w = 0 then _ else _ : Int × World σ).1 = _
    split
    · rw [Program.run_bind, Program.run_pure]
      exact execProg_answer env _ _
    · rfl
  · rw [adbncPull, run_adbncPushPullCmd]
    simp only [Bool.false_eq_true, if_false, run_access, hknown]
    exact congrArg World.env (if_pos haccess)

theorem or_eq_self_iff {a b : Option Str} : a.or b = b ↔ a = none ∨ a = b := by
  cases a <;> simp

/-- Where the pull is made, the open returns and leaves what it does without it exactly when the
pull is idle. -/
theorem pullIdle_iff (hplain : pFi.Plain) :
    (((openLocal g p pFi).run env.handle w).1 = ((pullAndOpen g p pFi).run env.handle w).1 ∧
        (v.files ((openLocal g p pFi).run env.handle w).2.env).content (g.localPath p) =
          (v.files ((pullAndOpen g p pFi).run env.handle w).2.env).content (g.localPath p)) ↔
      PullIdle v g p pFi w := by
  obtain ⟨hopen, hcopy⟩ := run_openLocal v g p w hplain
  obtain ⟨hresult, henv⟩ := run_pull v g p w
  have hcontent := v.pull_run g p w
  change _ = if readAccess v g p w = 0 then _ else _ at hcontent
  have hafter := run_openLocal v g p ((adbncPull g p (g.localPath p)).run env.handle w).2 hplain
  rw [pullAndOpen, Program.run_bind, Program.run_ite, hopen, hcopy, hresult]
  by_cases haccess : readAccess v g p w = 0
  · rw [if_pos haccess] at hcontent ⊢
    have hnew : (v.files w.env).content (g.localPath p) =
        ((v.files w.env).remote p).or ((v.files w.env).content (g.localPath p)) ↔
          NothingNew v g p w := eq_comm.trans or_eq_self_iff
    by_cases hadb : transferResult (pullAnswer g p w env).1 = 0
    · rw [if_pos hadb, hafter.1, hafter.2, hcontent, hnew, henv haccess]
      refine ⟨fun h => .pulled haccess h.2 hadb h.1, fun h => ?_⟩
      cases h with
      | refused hne => exact absurd haccess hne
      | failed _ _ hne => exact absurd hadb hne
      | pulled _ hsame _ hsame' => exact ⟨hsame', hsame⟩
    · rw [if_neg hadb, Program.run_pure, hcontent, hnew]
      refine ⟨fun h => .failed haccess h.2 hadb h.1, fun h => ?_⟩
      cases h with
      | refused hne => exact absurd haccess hne
      | failed _ hsame _ hsame' => exact ⟨hsame', hsame⟩
      | pulled _ _ hz => exact absurd hz hadb
  · rw [if_neg haccess] at hcontent ⊢
    rw [if_neg haccess, Program.run_pure, hcontent]
    refine ⟨fun h => .refused haccess h.1, fun h => ?_⟩
    cases h with
    | refused _ hsame => exact ⟨hsame, rfl⟩
    | failed hz => exact absurd hz haccess
    | pulled hz => exact absurd hz haccess

/-- Opening does not depend on the files of the host outside the temporary directory exactly
when the host is not asked, or the files agree on the path, or the pull makes no difference. -/
theorem open_independent_iff (hplain : pFi.Plain) (h₁ h₂ : Outside) :
    (((adbnc_open g p pFi).run (env.beside inside).handle (w.beside h₁)).1.1 =
          ((adbnc_open g p pFi).run (env.beside inside).handle (w.beside h₂)).1.1 ∧
        (v.files ((adbnc_open g p pFi).run (env.beside inside).handle
            (w.beside h₁)).2.env.1).content (g.localPath p) =
          (v.files ((adbnc_open g p pFi).run (env.beside inside).handle
            (w.beside h₂)).2.env.1).content (g.localPath p)) ↔
      ¬ Consults env inside p w ∨ h₁ p = h₂ p ∨
        PullIdle v g p pFi ((statOutput p).run env.handle w).2 := by
  by_cases hc : Consults env inside p w
  · obtain ⟨hr₁, hw₁⟩ := run_open_consults g pFi hc h₁
    obtain ⟨hr₂, hw₂⟩ := run_open_consults g pFi hc h₂
    have hstat : ((doStat p false).run env.handle w).2 = ((statOutput p).run env.handle w).2 := by
      rw [v.doStat_run]
    rw [hr₁, hr₂, hw₁, hw₂, hstat, ← pullIdle_iff v g p _ hplain]
    simp only [hc, not_true_eq_false, false_or, World.beside]
    cases h₁ p <;> cases h₂ p <;> simp [eq_comm]
  · rw [run_open_indoors g pFi hc h₁, run_open_indoors g pFi hc h₂]
    simp [hc, World.beside]

end

/-! ## The hosts file -/

/-- A host with a temporary directory that has at most the local copy in question: a pull
writes it, and the local `open` wants it to be there. -/
def Env.pulling : Env (Option Str) where
  time s := (0, s)
  shell
    | .stat p, s => ([p ++ " 4 8 81b6 0 0 b301 17 1 0 0 1 1 1 4096".toList], s)
    | _, s => ([], s)
  spawn _ _ _ := (some ([], 0), some "device".toList)
  syscall
    | .open' _ _, s => (if s.isSome then .ok 5 else .error ENOENT, s)
    | .stat _, s => (if s.isSome then .ok 0 else .error ENOENT, s)
    | .close _, s | .fsync _, s | .truncate _ _, s | .mknod _ _ _, s | .unlink _, s => (.ok 0, s)
    | .pread _ _ _, s => (.ok [], s)
    | .pwrite _ data _, s => (.ok data.length, s)

/-- A host that has `/etc/hosts`, and one without files. -/
def hostsFile : Outside := fun p => p == "/etc/hosts".toList

def noFiles : Outside := fun _ => false

def inTempDir (p : Str) : Bool := exampleGlobals.strTempDirPath.isPrefixOf p

theorem open_independent_hosts :
    (((adbnc_open exampleGlobals ['/', 'a'] ⟨-1, 0⟩).run (Copies.env.beside inTempDir).handle
            (Copies.start.beside hostsFile)).1.1 =
          ((adbnc_open exampleGlobals ['/', 'a'] ⟨-1, 0⟩).run (Copies.env.beside inTempDir).handle
            (Copies.start.beside noFiles)).1.1 ∧
        (Copies.view.files ((adbnc_open exampleGlobals ['/', 'a'] ⟨-1, 0⟩).run
            (Copies.env.beside inTempDir).handle (Copies.start.beside hostsFile)).2.env.1).content
            (exampleGlobals.localPath ['/', 'a']) =
          (Copies.view.files ((adbnc_open exampleGlobals ['/', 'a'] ⟨-1, 0⟩).run
            (Copies.env.beside inTempDir).handle (Copies.start.beside noFiles)).2.env.1).content
            (exampleGlobals.localPath ['/', 'a'])) ↔
      ¬ Consults Copies.env inTempDir ['/', 'a'] Copies.start ∨
        hostsFile ['/', 'a'] = noFiles ['/', 'a'] ∨
        PullIdle Copies.view exampleGlobals ['/', 'a'] ⟨-1, 0⟩
          ((statOutput ['/', 'a']).run Copies.env.handle Copies.start).2 :=
  open_independent_iff Copies.view exampleGlobals ['/', 'a'] Copies.start
    (show FileInfo.Plain ⟨-1, 0⟩ from rfl) hostsFile noFiles

/-- `/etc/hosts` of the device cannot be opened where the host has a file of this name. -/
theorem open_depends_on_hosts :
    let open' := fun h => (adbnc_open exampleGlobals "/etc/hosts".toList ⟨-1, 0⟩).run
      (Env.pulling.beside inTempDir).handle
      ((⟨FileCache.empty, FileStatus.empty, none⟩ : World (Option Str)).beside h)
    ((open' hostsFile).1.1 = -ENOENT ∧ (open' hostsFile).2.env.1 = none) ∧
      (open' noFiles).1.1 = 0 ∧ (open' noFiles).2.env.1 = some "device".toList := by
  decide +kernel

end AdbncFs
