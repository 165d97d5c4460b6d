import AdbncFs.Interaction.Protocol
import AdbncFs.System.NetcatProcess
import AdbncFs.System.Startup
import AdbncFs.System.Threads

/-!
# From `main` to the end

`initAdbncFs`, `adbnc_destroy` and `main`, with what they start and stop: the temporary
directory, the connection to the device and the netcat process of the local host. What FUSE
does is a parameter: whether it mounts the file system, what the callbacks then do, and what
`fuse_main` returns.

`resources` is the protocol that the temporary directory and the netcat process are used by.
`main_resources_iff` says which runs keep to it, those that crash included.
-/

namespace AdbncFs

open Text Interaction

/-! ## The operations -/

/-- What `main` and the functions it calls do, one by one. -/
inductive Life.Op
  /-- an operation of a function that starts or stops something -/
  | sys (op : Sys.Op)
  /-- an operation of a callback -/
  | callback (op : DirSys.Op)
  | mkdtemp (pcTemplate : Str)
  /-- `new Spawn(argv, false, true)` for `pNetCat` -/
  | newNetCat (argv : List Str)
  /-- `pNetCat->sendEof()` -/
  | sendEof
  /-- `pNetCat->wait()` -/
  | wait
  /-- `delete pNetCat` -/
  | deleteNetCat
  /-- the mutexes and the condition variable -/
  | initLocks
  | destroyLocks
  /-- FUSE begins to call the callbacks -/
  | serve

/-- A failing `mkdtemp` sets `errno`. A failing constructor throws an exception with a text. `wait`
has the status of a child that has ended; where `waitpid` fails it has none, and returns
`EXIT_FAILURE`. -/
def Life.Op.Res : Life.Op → Type
  | .sys op => op.Res
  | .callback op => op.Res
  | .mkdtemp _ => Except { errno : Int // errno ≠ 0 } Str
  | .newNetCat _ => Except Str Unit
  | .wait => Option Int
  | _ => Unit

/-- The operations of a whole run. -/
def Life : Sig := ⟨Life.Op, Life.Op.Res⟩

/-- How a run ends without a result. -/
inductive Stop
  | crash (c : Crash)
  /-- the exception of `Spawn`, which nobody catches here -/
  | runtime_error (strErr : Str)
  deriving DecidableEq

/-- A function of a whole run, which may end it. -/
abbrev Main := ExceptT Stop (Program Life)

/-- A function of `adbncfs.cpp` that does not crash. -/
def sysLife {α : Type} (p : Program Sys α) : Program Life α :=
  p.expand fun op => Program.send (S := Life) (.sys op)

instance : MonadLift (Program Sys) (Program Life) := ⟨sysLife⟩

/-- What a callback does. -/
def callbackLife {α : Type} (p : Program DirSys α) : Program Life α :=
  p.expand fun op => Program.send (S := Life) (.callback op)

/-- A function that may crash. -/
def mayCrash {α : Type} (x : ExceptT Crash (Program Sys) α) : Main α :=
  ExceptT.mk (Except.mapError Stop.crash <$> sysLife x.run)

/-! ## The source -/

/-- The global variables that `main` and what it calls set. `pNetCat` says whether the pointer
is not null. -/
structure Instance where
  strTempDirPath : Str
  pNetCat : Bool
  pUserInfo : Option UserInfo
  pMountInfo : Option MountInfo

/-- The variables as they are initialized. -/
def Instance.start : Instance := ⟨[], false, none, none⟩

def pcTempDirTemplate : Str := "/tmp/adbncfs-XXXXXX".toList

/-- The text of the port, for `adb`. -/
def strForwardPort : Str := "tcp:".toList ++ printInt iForwardPort

/-- The text that a line of the list has when the port is forwarded. -/
def strForwardArg : Str := strForwardPort ++ ' ' :: strForwardPort

def devicesArgv : List Str := ["adb".toList, "devices".toList]

/-- The arguments that list, make and remove the forwarding of ports. -/
def listArgv : List Str := ["adb".toList, "forward".toList, "--list".toList]

def forwardArgv : List Str := ["adb".toList, "forward".toList, strForwardPort, strForwardPort]

def removeArgv : List Str := ["adb".toList, "forward".toList, "--remove".toList, strForwardPort]

/-- The errno of `mkdtemp`, or 0 when the directory is made. -/
def makeTempDir (inst : Instance) : Program Life (Int × Instance) := do
  match ← Program.send (S := Life) (.mkdtemp pcTempDirTemplate) with
  | .ok pcTempDir => return (0, { inst with strTempDirPath := pcTempDir ++ ['/'] })
  | .error errno => return (errno, inst)

/-- The directory is removed with all that is in it; the answer of `rm` is not looked at. -/
def cleanupTempDir (inst : Instance) : Program Sys Unit := do
  let _ ← execProg ["rm".toList, "-rf".toList, inst.strTempDirPath] false

/-- 0 if a device is connected, 1 otherwise. -/
def isAndroidDeviceConnected : Program Sys Int := do
  let (output, iError) ← execProg devicesArgv false
  return if iError.getD 0 = 0 ∧ output.length > 2 ∧
    (output.getD (output.length - 2) []).take 8 ≠ "List of ".toList then 0 else 1

/-- A line of the list has the text in it. -/
def isAndroidPortForwarded (strForwardArg : Str) : Program Sys Bool := do
  let (output, _) ← execProg listArgv false
  return output.any fun line => find line strForwardArg 0 ≠ none

/-- 0 if the port could be forwarded, 2 otherwise. -/
def setAndroidPortForwarding : Program Sys Int := do
  if ¬ (← isAndroidPortForwarded strForwardArg) then
    let _ ← execProg forwardArgv false
  return if ← isAndroidPortForwarded strForwardArg then 0 else 2

/-- Whether the port is not forwarded any more. -/
def removeAndroidPortForwarding : Program Sys Bool := do
  if ← isAndroidPortForwarded strForwardArg then
    let _ ← execProg removeArgv false
  return ¬ (← isAndroidPortForwarded strForwardArg)

/-- Start the local netcat, once. An exception of `Spawn` passes through. -/
def initNetCat (inst : Instance) : Main Instance := do
  if inst.pNetCat then return inst
  else
    match ← Program.send (S := Life)
        (.newNetCat ["nc".toList, "localhost".toList, printInt iForwardPort]) with
    | .ok () => return { inst with pNetCat := true }
    | .error strErr => throw (.runtime_error strErr)

/-- End the local netcat: close its input, await its end and delete it. -/
def destroyNetCat (inst : Instance) : Program Life Instance := do
  if inst.pNetCat then
    let _ ← Program.send (S := Life) .sendEof
    let _ ← Program.send (S := Life) .wait
    let _ ← Program.send (S := Life) .deleteNetCat
    return { inst with pNetCat := false }
  else return inst

/-- No argument asks for help or the version only. -/
def fInitRequired (argv : List Str) : Bool :=
  ¬ (argv.drop 1).any fun arg =>
    arg = "-h".toList ∨ arg = "--help".toList ∨ arg = "-V".toList ∨ arg = "--version".toList

/-- `initAdbncFs` without the signal handler and the debug option. The result is that of the
first step that fails. -/
def initAdbncFs (argv : List Str) (iUid iGid : Int) (inst : Instance) : Main (Int × Instance) := do
  if ¬ fInitRequired argv then return (0, inst)
  else
    let (iRes, inst) ← makeTempDir inst
    if iRes ≠ 0 then return (iRes, inst)
    else
      let iRes ← (isAndroidDeviceConnected : Program Life Int)
      if iRes ≠ 0 then return (iRes, inst)
      else
        let iRes ← (setAndroidPortForwarding : Program Life Int)
        if iRes ≠ 0 then return (iRes, inst)
        else
          let iRes ← mayCrash androidStartNetcat
          if iRes ≠ 0 then return (iRes, inst)
          else
            let (iRes, pUserInfo) ← mayCrash (queryUserInfo iUid iGid)
            let inst := { inst with pUserInfo }
            if iRes ≠ 0 then return (iRes, inst)
            else
              let (iRes, pMountInfo) ← mayCrash queryMountInfo
              let inst ← initNetCat { inst with pMountInfo }
              return (iRes, inst)

/-- Called by FUSE when the file system is unmounted, and by `main` after an error. -/
def adbnc_destroy (inst : Instance) : Main Instance := do
  let _ ← Program.send (S := Life) .destroyLocks
  let inst ← destroyNetCat inst
  mayCrash androidKillNetCat
  let _ ← (removeAndroidPortForwarding : Program Life Bool)
  let _ ← (cleanupTempDir inst : Program Life Unit)
  return { inst with pMountInfo := none, pUserInfo := none }

/-- What FUSE does. -/
structure Session where
  mounts : Bool
  /-- what all callbacks do, by the global variables -/
  callbacks : Instance → Program DirSys Unit
  /-- what `fuse_main` returns -/
  result : Int

/-- `fuse_main` calls `adbnc_init` when it has mounted the file system, and `adbnc_destroy` when
that is unmounted. -/
def fuse_main (session : Session) (inst : Instance) : Main (Int × Instance) := do
  if session.mounts then
    let _ ← Program.send (S := Life) .initLocks
    let _ ← Program.send (S := Life) .serve
    let _ ← (callbackLife (session.callbacks inst) : Program Life Unit)
    let inst ← adbnc_destroy inst
    return (session.result, inst)
  else return (session.result, inst)

/-- The result of `initAdbncFs` if that fails, else that of FUSE. After a failure all is stopped. -/
def main (argv : List Str) (session : Session) (iUid iGid : Int) : Main Int := do
  let (iRes, inst) ← initAdbncFs argv iUid iGid Instance.start
  let (iRes, inst) ← if iRes = 0 then fuse_main session inst else pure (iRes, inst)
  if iRes ≠ 0 then
    let _ ← adbnc_destroy inst
    return iRes
  else return iRes

/-! ## The protocol -/

/-- The mutexes and the condition variable. Before `adbnc_init` they are static variables, which may
be destroyed. -/
inductive Locks
  | unused
  | ready
  | destroyed

/-- The netcat process of the local host. Its end is awaited when the pipe to it is closed; whether
it has ended is what `wait` has said. -/
inductive NetCatChild
  | absent
  | running
  | atEof
  | awaited (ended : Bool)
  | deleted (ended : Bool)

/-- The temporary directory. Whether it is gone is what `rm` has said. -/
inductive TempDir
  | absent
  | made (pcTempDir : Str)
  | removed (pcTempDir : Str) (gone : Bool)

/-- What a run holds. -/
structure Resources where
  locks : Locks
  child : NetCatChild
  tempDir : TempDir

/-- Nothing is held. -/
def Resources.start : Resources := ⟨.unused, .absent, .absent⟩

/-- What `strTempDirPath` holds. -/
def TempDir.path : TempDir → Str
  | .absent => []
  | .made d | .removed d _ => d ++ ['/']

/-- What may be done. The only program `rm` that is started is the one that removes the temporary
directory. -/
def Resources.Allows (s : Resources) : Life.Op → Prop
  | .sys (.spawn argv _) =>
    argv.head? = some "rm".toList → argv = ["rm".toList, "-rf".toList, s.tempDir.path]
  | .sys _ => True
  | .mkdtemp _ => s.tempDir = .absent
  | .newNetCat _ => s.child = .absent
  | .sendEof => s.child = .running
  | .wait => s.child = .atEof
  | .deleteNetCat => ∃ ended, s.child = .awaited ended
  | .initLocks => s.locks = .unused
  | .destroyLocks => s.locks ≠ .destroyed
  | .serve | .callback _ =>
    s.locks = .ready ∧ s.child = .running ∧ ∃ d, s.tempDir = .made d

/-- A program that could be started and has ended with the status 0. -/
def Succeeded : Option (Str × Int) → Bool
  | some (_, iStatus) => iStatus = 0
  | none => false

/-- `rm -rf` of the directory; `gone` says whether it reported a success. -/
def TempDir.remove (gone : Bool) : TempDir → TempDir
  | .made d => .removed d gone
  | t => t

/-- The object goes, and what is known of the end of the process stays. -/
def NetCatChild.delete : NetCatChild → NetCatChild
  | .awaited ended => .deleted ended
  | c => c

/-- What an operation and its answer change. -/
def Resources.after (s : Resources) : (op : Life.Op) → op.Res → Resources
  | .sys (.spawn argv _), r =>
    if argv.head? = some "rm".toList then { s with tempDir := s.tempDir.remove (Succeeded r) }
    else s
  | .mkdtemp _, .ok pcTempDir => { s with tempDir := .made pcTempDir }
  | .newNetCat _, .ok () => { s with child := .running }
  | .sendEof, _ => { s with child := .atEof }
  | .wait, r => { s with child := .awaited r.isSome }
  | .deleteNetCat, _ => { s with child := s.child.delete }
  | .initLocks, _ => { s with locks := .ready }
  | .destroyLocks, _ => { s with locks := .destroyed }
  | _, _ => s

/-- What may be done with the resources, and what becomes of them. -/
def resources : Protocol Life Resources where
  allows := Resources.Allows
  next s op r t := t = s.after op r

/-! ## The steps of `initAdbncFs` -/

variable {α : Type} {s : Resources}

/-- It starts no `rm`. -/
def Sys.Op.NoRemoval : Sys.Op → Prop
  | .spawn argv _ => argv.head? ≠ some "rm".toList
  | _ => True

theorem Resources.after_sys {op : Sys.Op} (h : op.NoRemoval) (r : op.Res) :
    s.after (.sys op) r = s := by
  cases op with
  | spawn argv fUseStdErr => exact if_neg h
  | _ => rfl

theorem Resources.allows_sys {op : Sys.Op} (h : op.NoRemoval) : s.Allows (.sys op) := by
  cases op with
  | spawn argv fUseStdErr => exact fun hrm => absurd hrm h
  | _ => trivial

theorem obeys_sysLife {p : Program Sys α} (h : p.Uses (S := Sys) Sys.Op.NoRemoval) :
    (sysLife p).Obeys resources s fun _ t => t = s := by
  induction p with
  | ret a => rfl
  | call op k ih =>
    refine ⟨Resources.allows_sys h.1, fun r t ht => ?_⟩
    rw [ht, Resources.after_sys h.1 r]
    exact ih r (h.2 r)

theorem obeys_mayCrash {x : ExceptT Crash (Program Sys) α}
    (h : x.run.Uses (S := Sys) Sys.Op.NoRemoval) :
    Program.ObeysExcept resources s (mayCrash x) (fun _ t => t = s) fun _ t => t = s := by
  change (Except.mapError Stop.crash <$> sysLife x.run).Obeys resources s _
  rw [← bind_pure_comp]
  refine (obeys_sysLife h).bind fun r t ht => Program.obeys_pure ?_
  cases r with
  | ok a => exact ht
  | error c => exact ht

section

variable {β : Type} {P : Sys.Op → Prop}

theorem uses_bind_except {x : ExceptT Crash (Program Sys) α}
    {f : α → ExceptT Crash (Program Sys) β} (hx : x.run.Uses (S := Sys) P)
    (hf : ∀ a, (f a).run.Uses (S := Sys) P) : (x >>= f).run.Uses (S := Sys) P := by
  rw [ExceptT.run_bind]
  refine Program.uses_bind hx fun r => ?_
  cases r with
  | ok a => exact hf a
  | error c => exact Program.uses_pure _

theorem uses_lift_bind {p : Program Sys α} {f : α → ExceptT Crash (Program Sys) β}
    (hp : p.Uses P) (hf : ∀ a, (f a).run.Uses (S := Sys) P) :
    (liftM p >>= f : ExceptT Crash (Program Sys) β).run.Uses (S := Sys) P := by
  change (ExceptT.lift p >>= f).run.Uses (S := Sys) P
  rw [ExceptT.run_bind_lift]
  exact Program.uses_bind hp hf

end

theorem uses_exec {argv : List Str} (h : argv.head? ≠ some "rm".toList) :
    (execProg argv false).Uses (S := Sys) Sys.Op.NoRemoval := uses_execProg h

theorem uses_ofExcept (r : Except Crash α) :
    (ofExcept r : ExceptT Crash (Program Sys) α).run.Uses (S := Sys) Sys.Op.NoRemoval := by
  cases r <;> exact Program.uses_pure _

theorem uses_androidNetcatStarted :
    androidNetcatStarted.run.Uses (S := Sys) Sys.Op.NoRemoval :=
  uses_lift_bind (uses_exec (by decide)) fun r => uses_ofExcept (androidNetcatStarted.loop r.1)

theorem uses_androidStartNetcat :
    androidStartNetcat.run.Uses (S := Sys) Sys.Op.NoRemoval := by
  have hrest : (do return if (← androidNetcatStarted) ≠ 0 then 0 else 3 :
      ExceptT Crash (Program Sys) Int).run.Uses (S := Sys) Sys.Op.NoRemoval :=
    uses_bind_except uses_androidNetcatStarted fun _ => Program.uses_pure _
  refine uses_bind_except uses_androidNetcatStarted fun iPid => ?_
  split
  · exact uses_lift_bind (uses_exec (by decide)) fun _ => hrest
  · exact hrest

theorem uses_androidKillNetCat :
    androidKillNetCat.run.Uses (S := Sys) Sys.Op.NoRemoval := by
  have hrest : (do let _ ← androidNetcatStarted :
      ExceptT Crash (Program Sys) Unit).run.Uses (S := Sys) Sys.Op.NoRemoval :=
    uses_bind_except uses_androidNetcatStarted fun _ => Program.uses_pure _
  refine uses_bind_except uses_androidNetcatStarted fun iPid => ?_
  split
  · exact uses_lift_bind (uses_exec (by simp [killArgv])) fun _ => hrest
  · exact hrest

theorem uses_isAndroidPortForwarded (strForwardArg : Str) :
    (isAndroidPortForwarded strForwardArg).Uses (S := Sys) Sys.Op.NoRemoval :=
  Program.uses_bind (uses_exec (by decide)) fun _ => Program.uses_pure _

/-- Whether the port is forwarded is asked before and after the command. -/
theorem uses_forwarding (c : Bool → Prop) [DecidablePred c] {argv : List Str}
    (h : argv.head? ≠ some "rm".toList) (f : Bool → Program Sys α)
    (hf : ∀ b, (f b).Uses (S := Sys) Sys.Op.NoRemoval) :
    (do
      if c (← isAndroidPortForwarded strForwardArg) then
        let _ ← execProg argv false
      f (← isAndroidPortForwarded strForwardArg) : Program Sys α).Uses (S := Sys)
        Sys.Op.NoRemoval := by
  have hrest : (isAndroidPortForwarded strForwardArg >>= f).Uses (S := Sys) Sys.Op.NoRemoval :=
    Program.uses_bind (uses_isAndroidPortForwarded _) hf
  refine Program.uses_bind (uses_isAndroidPortForwarded _) fun b => ?_
  split
  · exact Program.uses_bind (uses_exec h) fun _ => hrest
  · exact hrest

theorem uses_setAndroidPortForwarding :
    setAndroidPortForwarding.Uses (S := Sys) Sys.Op.NoRemoval :=
  uses_forwarding (¬ · = true) (by decide) _ fun _ => Program.uses_pure _

theorem uses_removeAndroidPortForwarding :
    removeAndroidPortForwarding.Uses (S := Sys) Sys.Op.NoRemoval :=
  uses_forwarding (· = true) (by decide) _ fun _ => Program.uses_pure _

/-! ## Starting and stopping -/

/-- The global variables know what there is. -/
structure Instance.Owns (inst : Instance) (s : Resources) : Prop where
  path : inst.strTempDirPath = s.tempDir.path
  netcat : inst.pNetCat = true → s.child = .running
  noNetcat : inst.pNetCat = false → s.child = .absent ∨ ∃ ended, s.child = .deleted ended

/-- There is no netcat process, or it was awaited. -/
def Resources.NoChild (s : Resources) : Prop :=
  s.child = .absent ∨ ∃ ended, s.child = .deleted ended

/-- How an exception or a crash leaves things: no process, and the temporary directory if one was
made. -/
def Resources.Abandoned (s : Resources) : Prop := s.NoChild ∧ ∀ d gone, s.tempDir ≠ .removed d gone

/-- What `initAdbncFs` has done. -/
structure Resources.Started (iRes : Int) (inst : Instance) (s : Resources) : Prop where
  owns : inst.Owns s
  locks : s.locks = .unused
  tempDir : ∀ d gone, s.tempDir ≠ .removed d gone
  success : iRes = 0 → s.child = .running ∧ ∃ d, s.tempDir = .made d

/-- The state in which the connection to the device is set up. -/
def Resources.connecting (pcTempDir : Str) : Resources := ⟨.unused, .absent, .made pcTempDir⟩

theorem obeys_initNetCat {d : Str} {inst : Instance} (hpath : inst.strTempDirPath = d ++ ['/'])
    (hnetcat : inst.pNetCat = false) (iRes : Int) :
    Program.ObeysExcept resources (.connecting d)
      (do
        let inst ← initNetCat inst
        return (iRes, inst))
      (fun r t => t.Started r.1 r.2) fun _ t => t.Abandoned := by
  have hinit : Program.ObeysExcept resources (.connecting d) (initNetCat inst)
      (fun inst' t => inst'.strTempDirPath = d ++ ['/'] ∧ inst'.pNetCat = true ∧
        t = ⟨.unused, .running, .made d⟩) fun _ t => t.Abandoned := by
    rw [initNetCat, if_neg (by simp [hnetcat])]
    have hallows : resources.allows (.connecting d)
        (.newNetCat ["nc".toList, "localhost".toList, printInt iForwardPort]) := rfl
    refine (Program.obeys_send hallows).bind_lift fun r t ht => ?_
    subst ht
    cases r with
    | ok _ => exact Program.obeysExcept_pure ⟨hpath, rfl, rfl⟩
    | error strErr => exact Program.obeysExcept_throw ⟨.inl rfl, fun _ _ h => (nomatch h)⟩
  refine hinit.bind fun inst' t ⟨hpath', hnetcat', ht⟩ => ?_
  subst ht
  have howns : inst'.Owns ⟨.unused, .running, .made d⟩ := by
    refine ⟨hpath', fun _ => rfl, fun hno => ?_⟩
    rw [hnetcat'] at hno
    cases hno
  exact Program.obeysExcept_pure ⟨howns, rfl, fun _ _ h => (nomatch h), fun _ => ⟨rfl, d, rfl⟩⟩

theorem obeys_makeTempDir :
    (makeTempDir Instance.start).Obeys resources .start fun r t =>
      r.2.pNetCat = false ∧ r.2.strTempDirPath = t.tempDir.path ∧
        ((r.1 = 0 ∧ ∃ d, t = .connecting d) ∨ (r.1 ≠ 0 ∧ t = .start)) := by
  have hallows : resources.allows .start (.mkdtemp pcTempDirTemplate) := rfl
  refine Program.obeys_send_bind hallows fun r t ht => ?_
  subst ht
  cases r with
  | ok pcTempDir => exact Program.obeys_pure ⟨rfl, rfl, .inl ⟨rfl, pcTempDir, rfl⟩⟩
  | error errno => exact Program.obeys_pure ⟨rfl, rfl, .inr ⟨errno.2, rfl⟩⟩

/-- A step that fails leaves what there is. -/
theorem started_of_failed {d : Str} {inst : Instance} (hpath : inst.strTempDirPath = d ++ ['/'])
    (hnetcat : inst.pNetCat = false) {iRes : Int} (h : iRes ≠ 0) :
    (Resources.connecting d).Started iRes inst := by
  refine ⟨⟨hpath, fun hyes => ?_, fun _ => .inl rfl⟩, rfl, fun _ _ hd => (nomatch hd),
    fun hzero => absurd hzero h⟩
  rw [hnetcat] at hyes
  cases hyes

/-- A query about the device. -/
theorem obeys_query {β : Type} {d : Str} {p : Program Sys α} {f : α → Main β}
    {Q : β → Resources → Prop} {E : Stop → Resources → Prop}
    (hp : p.Uses (S := Sys) Sys.Op.NoRemoval)
    (hf : ∀ a, Program.ObeysExcept resources (.connecting d) (f a) Q E) :
    Program.ObeysExcept resources (.connecting d)
      ((liftM (liftM p : Program Life α) : Main α) >>= f) Q E :=
  (obeys_sysLife hp).bind_lift fun a t ht => by
    rw [ht]
    exact hf a

/-- A query that may crash. -/
theorem obeys_crashingQuery {β : Type} {d : Str} {x : ExceptT Crash (Program Sys) α}
    {f : α → Main β} {Q : β → Resources → Prop} (hx : x.run.Uses (S := Sys) Sys.Op.NoRemoval)
    (hf : ∀ a, Program.ObeysExcept resources (.connecting d) (f a) Q fun _ t => t.Abandoned) :
    Program.ObeysExcept resources (.connecting d) (mayCrash x >>= f) Q
      fun _ t => t.Abandoned := by
  refine ((obeys_mayCrash hx).mono (fun _ _ ht => ht) ?_).bind fun a t ht => ?_
  · rintro _ _ rfl
    exact ⟨.inl rfl, fun _ _ hd => (nomatch hd)⟩
  · rw [ht]
    exact hf a

theorem uses_isAndroidDeviceConnected :
    isAndroidDeviceConnected.Uses (S := Sys) Sys.Op.NoRemoval :=
  Program.uses_bind (uses_exec (by decide)) fun _ => Program.uses_pure _

theorem uses_queryUserInfo (iUid iGid : Int) :
    (queryUserInfo iUid iGid).run.Uses (S := Sys) Sys.Op.NoRemoval :=
  uses_lift_bind (uses_exec (by decide)) fun _ => uses_ofExcept _

theorem uses_queryMountInfo : queryMountInfo.run.Uses (S := Sys) Sys.Op.NoRemoval :=
  uses_lift_bind (uses_exec (by decide)) fun _ => uses_ofExcept _

theorem obeys_initAdbncFs {argv : List Str} (hargv : fInitRequired argv = true) (iUid iGid : Int) :
    Program.ObeysExcept resources .start (initAdbncFs argv iUid iGid .start)
      (fun r t => t.Started r.1 r.2) fun _ t => t.Abandoned := by
  rw [initAdbncFs, if_neg (not_not.mpr hargv)]
  refine obeys_makeTempDir.bind_lift fun ⟨iRes, inst⟩ t ⟨hnetcat, hpath, ht⟩ => ?_
  dsimp only at hnetcat hpath ht ⊢
  by_cases hzero : iRes = 0
  · obtain ⟨d, rfl⟩ := (ht.resolve_right fun hr => hr.1 hzero).2
    rw [if_neg (not_not.mpr hzero)]
    have hfail : ∀ {iRes : Int} (inst : Instance), inst.strTempDirPath = d ++ ['/'] →
        inst.pNetCat = false → iRes ≠ 0 → Program.ObeysExcept resources (.connecting d)
          (pure (iRes, inst) : Main _) (fun r t => t.Started r.1 r.2) fun _ t => t.Abandoned :=
      fun inst hpath hnetcat h => Program.obeysExcept_pure (started_of_failed hpath hnetcat h)
    refine obeys_query uses_isAndroidDeviceConnected fun iRes => ?_
    split
    · exact hfail inst hpath hnetcat ‹_›
    refine obeys_query uses_setAndroidPortForwarding fun iRes => ?_
    split
    · exact hfail inst hpath hnetcat ‹_›
    refine obeys_crashingQuery uses_androidStartNetcat fun iRes => ?_
    split
    · exact hfail inst hpath hnetcat ‹_›
    refine obeys_crashingQuery (uses_queryUserInfo iUid iGid) fun ⟨iRes, pUserInfo⟩ => ?_
    dsimp only
    split
    · exact hfail _ hpath hnetcat ‹_›
    refine obeys_crashingQuery uses_queryMountInfo fun ⟨iRes, pMountInfo⟩ => ?_
    exact @obeys_initNetCat d ⟨_, _, pUserInfo, pMountInfo⟩ hpath hnetcat iRes
  · obtain ⟨-, rfl⟩ := ht.resolve_left fun hr => hzero hr.1
    rw [if_pos hzero]
    have howns : inst.Owns .start := by
      refine ⟨hpath, fun hyes => ?_, fun _ => .inl rfl⟩
      rw [hnetcat] at hyes
      cases hyes
    exact Program.obeysExcept_pure
      ⟨howns, rfl, fun _ _ hd => (nomatch hd), fun h => absurd h hzero⟩

/-- What is left when all is given up: the netcat process was awaited, and the temporary directory
given to `rm`. -/
structure Resources.Stopped (s : Resources) : Prop where
  child : s.NoChild
  tempDir : ∀ d, s.tempDir ≠ .made d

theorem TempDir.remove_ne_made (t : TempDir) (gone : Bool) (d : Str) : t.remove gone ≠ .made d := by
  cases t <;> exact nofun

theorem obeys_destroyNetCat {inst : Instance} (howns : inst.Owns s) :
    (destroyNetCat inst).Obeys resources s fun inst' t =>
      inst'.strTempDirPath = s.tempDir.path ∧ t.NoChild ∧ t.locks = s.locks ∧
        t.tempDir = s.tempDir := by
  rw [destroyNetCat]
  split
  · rename_i hnetcat
    have hsend : resources.allows s .sendEof := howns.netcat hnetcat
    refine Program.obeys_send_bind hsend fun _ s₁ h₁ => ?_
    have hwait : resources.allows s₁ .wait := congrArg Resources.child h₁
    refine Program.obeys_send_bind hwait fun _ s₂ h₂ => ?_
    have hdelete : resources.allows s₂ .deleteNetCat := ⟨_, congrArg Resources.child h₂⟩
    refine Program.obeys_send_bind hdelete fun _ s₃ h₃ => ?_
    subst h₁ h₂ h₃
    exact Program.obeys_pure ⟨howns.path, .inr ⟨_, rfl⟩, rfl, rfl⟩
  · rename_i hnetcat
    exact Program.obeys_pure ⟨howns.path, howns.noNetcat (Bool.eq_false_of_not_eq_true hnetcat),
      rfl, rfl⟩

theorem obeys_cleanupTempDir {inst : Instance} (hpath : inst.strTempDirPath = s.tempDir.path) :
    (sysLife (cleanupTempDir inst)).Obeys resources s fun _ t =>
      ∃ gone, t = { s with tempDir := s.tempDir.remove gone } := by
  have hallows : resources.allows s
      (.sys (.spawn ["rm".toList, "-rf".toList, inst.strTempDirPath] false)) :=
    fun _ => by rw [hpath]
  refine ⟨hallows, fun r t ht => ?_⟩
  rw [ht]
  cases r with
  | none => exact Program.obeys_pure ⟨_, rfl⟩
  | some r =>
    change (sysLife ((if WIFEXITED r.2 ∧ WEXITSTATUS r.2 = ENOENT then
      pure ((execProg.loop false r.1).1, some (WEXITSTATUS r.2))
      else pure (execProg.loop false r.1) : Program Sys _) >>= fun _ => pure ())).Obeys _ _ _
    split <;> exact Program.obeys_pure ⟨_, rfl⟩

theorem obeys_adbnc_destroy {inst : Instance} (howns : inst.Owns s) (hlocks : s.locks ≠ .destroyed)
    (htempDir : ∀ d gone, s.tempDir ≠ .removed d gone) :
    Program.ObeysExcept resources s (adbnc_destroy inst)
      (fun _ t => t.Stopped ∧ t.locks = .destroyed) fun _ t => t.Abandoned := by
  have hdestroy : resources.allows s .destroyLocks := hlocks
  refine (Program.obeys_send hdestroy).bind_lift fun _ s₁ h₁ => ?_
  subst h₁
  have hnetcat := obeys_destroyNetCat (s := s.after .destroyLocks ()) ⟨howns.path, howns.netcat,
    howns.noNetcat⟩
  refine hnetcat.bind_lift fun inst' t ⟨hpath, hchild, hdestroyed, htemp⟩ => ?_
  have hkill := obeys_mayCrash (s := t) uses_androidKillNetCat
  refine Program.ObeysExcept.bind (hkill.mono (fun _ _ ht => ht) ?_) fun _ u hu => ?_
  · rintro _ _ rfl
    exact ⟨hchild, fun d gone hd => htempDir d gone (htemp.symm.trans hd)⟩
  subst hu
  refine (obeys_sysLife uses_removeAndroidPortForwarding).bind_lift fun _ u hu => ?_
  subst hu
  have hpath' : inst'.strTempDirPath = u.tempDir.path := by
    rw [hpath, htemp]
  refine (obeys_cleanupTempDir hpath').bind_lift fun _ v ⟨gone, hv⟩ => ?_
  subst hv
  exact Program.obeysExcept_pure ⟨⟨hchild, u.tempDir.remove_ne_made gone⟩, hdestroyed⟩

/-! ## The runs of `main` -/

/-- How a run may end. After an exception no process is left to await, but the temporary directory
stays. Else all is stopped, but for the one case that FUSE returns 0 without having mounted the
file system. -/
def Ended (argv : List Str) (session : Session) : Except Stop Int → Resources → Prop
  | .error _, s => s.Abandoned
  | .ok iRes, s => s.Stopped ↔ (fInitRequired argv = true → session.mounts = true ∨ iRes ≠ 0)

variable {argv : List Str} {session : Session} {iUid iGid : Int}

theorem obeys_callbackLife (h : resources.allows s .serve) (p : Program DirSys α) :
    (callbackLife p).Obeys resources s fun _ t => t = s := by
  induction p with
  | ret a => rfl
  | call op k ih =>
    refine ⟨h, fun r t ht => ?_⟩
    rw [ht]
    exact ih r

theorem obeys_mounted {inst : Instance} (hstarted : s.Started 0 inst)
    (hmounts : session.mounts = true) :
    Program.ObeysExcept resources s (fuse_main session inst)
      (fun r t => r.1 = session.result ∧ t.Stopped ∧ t.locks = .destroyed)
      fun _ t => t.Abandoned := by
  rw [fuse_main, if_pos hmounts]
  obtain ⟨hchild, d, htempDir⟩ := hstarted.success rfl
  have hinit : resources.allows s .initLocks := hstarted.locks
  refine (Program.obeys_send hinit).bind_lift fun _ s₁ h₁ => ?_
  have hserve : resources.allows s₁ .serve := by
    subst h₁
    exact ⟨rfl, hchild, d, htempDir⟩
  refine (Program.obeys_send hserve).bind_lift fun _ s₂ h₂ => ?_
  obtain rfl : s₂ = s₁ := h₂
  refine (obeys_callbackLife hserve _).bind_lift fun _ s₃ h₃ => ?_
  subst h₁ h₃
  have howns := hstarted.owns
  have hdestroy := obeys_adbnc_destroy (s := s.after .initLocks ())
    ⟨howns.path, howns.netcat, howns.noNetcat⟩ nofun hstarted.tempDir
  exact hdestroy.bind fun inst' t hstopped => Program.obeysExcept_pure ⟨rfl, hstopped⟩

/-- The last lines of `main`. -/
theorem obeys_rest {iRes : Int} {inst : Instance} (howns : inst.Owns s)
    (hlocks : s.locks = .unused) (htempDir : ∀ d gone, s.tempDir ≠ .removed d gone)
    (hzero : iRes = 0 → Ended argv session (.ok iRes) s) :
    Program.ObeysExcept resources s
      (if iRes ≠ 0 then do
        let _ ← adbnc_destroy inst
        return iRes
      else return iRes)
      (fun iRes t => Ended argv session (.ok iRes) t)
      fun e t => Ended argv session (.error e) t := by
  split
  · rename_i hne
    have hdestroy := obeys_adbnc_destroy howns (by rw [hlocks]; exact nofun) htempDir
    exact hdestroy.bind fun _ t ⟨hstopped, _⟩ =>
      Program.obeysExcept_pure (iff_of_true hstopped fun _ => .inr hne)
  · rename_i hzero'
    exact Program.obeysExcept_pure (hzero (not_not.mp hzero'))

theorem obeys_main (h : session.mounts = true → fInitRequired argv = true ∧ session.result = 0) :
    Program.ObeysExcept resources .start (main argv session iUid iGid)
      (fun iRes t => Ended argv session (.ok iRes) t)
      fun e t => Ended argv session (.error e) t := by
  rw [main]
  by_cases hargv : fInitRequired argv = true
  · refine (obeys_initAdbncFs hargv iUid iGid).bind fun ⟨iRes, inst⟩ s hstarted => ?_
    dsimp only at hstarted ⊢
    by_cases hzero : iRes = 0
    · subst hzero
      rw [if_pos rfl]
      by_cases hmounts : session.mounts = true
      · refine (obeys_mounted hstarted hmounts).bind fun ⟨iRes, inst'⟩ t ⟨hres, hstopped, _⟩ => ?_
        obtain rfl : iRes = 0 := hres.trans (h hmounts).2
        exact Program.obeysExcept_pure (iff_of_true hstopped fun _ => .inl hmounts)
      · rw [fuse_main, if_neg hmounts, pure_bind]
        refine obeys_rest hstarted.owns hstarted.locks hstarted.tempDir fun hresult => ?_
        refine iff_of_false (fun hstopped => ?_) fun hor => ?_
        · obtain ⟨d, hmade⟩ := (hstarted.success rfl).2
          exact hstopped.tempDir d hmade
        · exact (hor hargv).elim hmounts (absurd hresult)
    · rw [if_neg hzero, pure_bind]
      exact obeys_rest hstarted.owns hstarted.locks hstarted.tempDir fun h => absurd h hzero
  · have hmounts : ¬ session.mounts = true := fun hmounts => hargv (h hmounts).1
    rw [initAdbncFs, if_pos hargv, pure_bind]
    dsimp only
    rw [if_pos rfl, fuse_main, if_neg hmounts, pure_bind]
    refine obeys_rest (s := .start) ⟨rfl, nofun, fun _ => .inl rfl⟩ rfl nofun fun _ => ?_
    exact iff_of_true ⟨.inl rfl, nofun⟩ fun hyes => absurd hyes hargv

/-! ### A host with a device -/

/-- Whether the port is forwarded, and whether netcat runs on the device. -/
structure Attached where
  forwarded : Bool
  netcat : Bool

/-- What a program prints. -/
def Attached.prints (x : Attached) (argv : List Str) : Str :=
  if argv = devicesArgv then "List of devices attached\n0123456789ABCDEF\tdevice\n\n".toList
  else if argv = listArgv then
    if x.forwarded then "0123456789ABCDEF tcp:4444 tcp:4444\n".toList else []
  else if argv = psArgv then
    if x.netcat then "  17 root nc -ll -p 4444 -e /system/xbin/bash\n".toList else []
  else if argv = idArgv then
    "uid=0(root) gid=0(root)\n".toList
  else if argv = mountArgv then
    "rootfs on / type rootfs (ro,relatime)\n".toList
  else []

def Attached.after (x : Attached) (argv : List Str) : Attached :=
  if argv = forwardArgv then { x with forwarded := true }
  else if argv = removeArgv then { x with forwarded := false }
  else if argv = nohupArgv then { x with netcat := true }
  else if argv = killArgv 17 then { x with netcat := false }
  else x

/-- A host on which every start succeeds. -/
def attached : Handler Life Attached
  | .sys (.spawn argv _), x => (some (x.prints argv, 0), x.after argv)
  | .sys op, x => ((Env.obliging.handle op World.start).1, x)
  | .callback op, x => ((Env.obliging.directories op (World.start, fun _ => none)).1, x)
  | .mkdtemp _, x => (.ok "/tmp/adbncfs-a1B2c3".toList, x)
  | .newNetCat _, x => (.ok (), x)
  | .wait, x => (some (0 : Int), x)
  | .sendEof, x | .deleteNetCat, x | .initLocks, x | .destroyLocks, x | .serve, x => ((), x)

theorem path_attached (p : Program Life α) : ∃ es a, p.Path es a :=
  ⟨_, _, Program.path_trace attached p ⟨false, false⟩⟩

theorem path_initAdbncFs (hargv : fInitRequired argv = true) :
    ∃ es inst, (initAdbncFs argv 0 0 .start).run.Path es (.ok (0, inst)) := by
  have hsame : initAdbncFs argv 0 0 .start = initAdbncFs [] 0 0 .start := by
    rw [initAdbncFs, if_neg (not_not.mpr hargv), initAdbncFs, if_neg (by decide)]
  have hrun : ((initAdbncFs [] 0 0 .start).run.run attached ⟨false, false⟩).1.map (·.1) =
      .ok 0 := by decide +kernel
  rw [hsame]
  cases hresult : ((initAdbncFs [] 0 0 .start).run.run attached ⟨false, false⟩).1 with
  | ok r =>
    rw [hresult] at hrun
    obtain ⟨iRes, inst⟩ := r
    obtain rfl : iRes = 0 := Except.ok.inj hrun
    exact ⟨_, inst, hresult ▸ Program.path_trace attached _ _⟩
  | error e =>
    rw [hresult] at hrun
    cases hrun

theorem path_adbnc_destroy (inst : Instance) :
    ∃ es inst', (adbnc_destroy inst).run.Path es (.ok inst') := by
  have hkill : ∃ es, (mayCrash androidKillNetCat).run.Path es (.ok ()) := by
    have hrun : ((mayCrash androidKillNetCat).run.run attached ⟨true, true⟩).1 = .ok () := by
      decide +kernel
    exact ⟨_, hrun ▸ Program.path_trace attached _ _⟩
  obtain ⟨es₁, inst₁, h₁⟩ := path_attached (destroyNetCat inst)
  obtain ⟨es₂, h₂⟩ := hkill
  obtain ⟨es₃, _, h₃⟩ := path_attached (sysLife removeAndroidPortForwarding)
  obtain ⟨es₄, _, h₄⟩ := path_attached (sysLife (cleanupTempDir inst₁))
  have hlocks : (Program.send (S := Life) .destroyLocks).Path [⟨.destroyLocks, ()⟩] () :=
    Program.path_send.mpr rfl
  exact ⟨_, _, hlocks.bind_lift (h₁.bind_lift (h₂.bind_except (h₃.bind_lift (h₄.bind_lift
    (.ret _)))))⟩

theorem path_fuse_main (hmounts : session.mounts = true) (inst : Instance) :
    ∃ es inst', (fuse_main session inst).run.Path es (.ok (session.result, inst')) := by
  rw [fuse_main, if_pos hmounts]
  obtain ⟨es₁, _, h₁⟩ := path_attached (callbackLife (session.callbacks inst))
  obtain ⟨es₂, inst₂, h₂⟩ := path_adbnc_destroy inst
  have hinit : (Program.send (S := Life) .initLocks).Path [⟨.initLocks, ()⟩] () :=
    Program.path_send.mpr rfl
  have hserve : (Program.send (S := Life) .serve).Path [⟨.serve, ()⟩] () :=
    Program.path_send.mpr rfl
  exact ⟨_, _, hinit.bind_lift (hserve.bind_lift (h₁.bind_lift (h₂.bind_except (.ret _))))⟩

/-! ### All runs -/

theorem resources_total (s : Resources) (op : Life.Op) (r : op.Res) (_ : resources.allows s op) :
    ∃ t, resources.next s op r t := ⟨s.after op r, rfl⟩

/-- Without `initAdbncFs` the callbacks would be called without a netcat process. -/
theorem not_follows_uninitialized {es : List (Event Life)} {r : Except Stop (Int × Instance)}
    {inst : Instance} (hmounts : session.mounts = true)
    (hpath : (fuse_main session inst).run.Path es r) :
    ¬ resources.Follows .start es s := by
  rw [fuse_main, if_pos hmounts] at hpath
  intro hfollows
  cases hpath with
  | call r₁ hpath =>
    cases hpath with
    | call r₂ hpath =>
      obtain ⟨-, s₁, h₁, ⟨-, hchild, -⟩, -⟩ := hfollows
      subst h₁
      cases hchild

/-- An `rm` of the run has succeeded, and a `wait` has seen the end of the child. -/
def ReportsSuccess : Event Life → Prop
  | ⟨.sys (.spawn argv _), r⟩ => argv.head? = some "rm".toList → Succeeded r = true
  | ⟨.wait, r⟩ => Option.isSome r = true
  | _ => True

/-- What was given up has ended and is gone. -/
def Resources.Released (s : Resources) : Prop :=
  s.child ≠ .awaited false ∧ s.child ≠ .deleted false ∧ ∀ d, s.tempDir ≠ .removed d false

theorem Resources.Released.remove {s : Resources} (h : s.Released) :
    ({ s with tempDir := s.tempDir.remove true } : Resources).Released := by
  obtain ⟨hawaited, hdeleted, htempDir⟩ := h
  refine ⟨hawaited, hdeleted, fun d => ?_⟩
  cases htemp : s.tempDir with
  | absent => exact nofun
  | made d' => exact nofun
  | removed d' gone =>
    rw [htemp] at htempDir
    exact htempDir d

theorem Resources.Released.delete {s : Resources} (h : s.Released) :
    ({ s with child := s.child.delete } : Resources).Released := by
  obtain ⟨hawaited, hdeleted, htempDir⟩ := h
  cases hchild : s.child with
  | awaited ended =>
    rw [hchild] at hawaited
    refine ⟨nofun, fun hfalse => hawaited ?_, htempDir⟩
    exact congrArg NetCatChild.awaited (NetCatChild.deleted.inj hfalse)
  | deleted ended =>
    rw [hchild] at hdeleted
    exact ⟨nofun, hdeleted, htempDir⟩
  | _ => exact ⟨nofun, nofun, htempDir⟩

/-- An operation that reports its success releases what it gives up. -/
theorem Resources.Released.after {s : Resources} (h : s.Released) (op : Life.Op) (r : op.Res)
    (hr : ReportsSuccess ⟨op, r⟩) : (s.after op r).Released := by
  obtain ⟨hawaited, hdeleted, htempDir⟩ := id h
  cases op with
  | sys op =>
    cases op with
    | spawn argv fUseStdErr =>
      rw [Resources.after]
      split
      · rename_i hrm
        rw [show Succeeded r = true from hr hrm]
        exact h.remove
      · exact h
    | _ => exact h
  | callback op => exact h
  | mkdtemp pcTemplate =>
    cases r with
    | ok d => exact ⟨hawaited, hdeleted, nofun⟩
    | error e => exact h
  | newNetCat argv =>
    cases r with
    | ok _ => exact ⟨nofun, nofun, htempDir⟩
    | error e => exact h
  | sendEof => exact ⟨nofun, nofun, htempDir⟩
  | wait =>
    refine ⟨fun hfalse => ?_, nofun, htempDir⟩
    exact absurd (hr.symm.trans (NetCatChild.awaited.inj hfalse)) (by decide)
  | deleteNetCat => exact h.delete
  | _ => exact ⟨hawaited, hdeleted, htempDir⟩

theorem released_of_follows {es : List (Event Life)} {t : Resources}
    (hfollows : resources.Follows s es t) (hs : s.Released) (hes : ∀ e ∈ es, ReportsSuccess e) :
    t.Released := by
  induction es generalizing s with
  | nil => exact hfollows ▸ hs
  | cons e es ih =>
    obtain ⟨-, s', rfl, hrest⟩ := hfollows
    exact ih hrest (hs.after e.1 e.2 (hes e List.mem_cons_self))
      fun e' he' => hes e' (List.mem_cons_of_mem e he')

/-- How a run goes: it keeps to the protocol, ends with all given up, and with all released where
`rm` and `wait` report a success. -/
def KeepsResources (argv : List Str) (session : Session) (es : List (Event Life))
    (r : Except Stop Int) : Prop :=
  ∃ s, resources.Follows .start es s ∧ Ended argv session r s ∧
    ((∀ e ∈ es, ReportsSuccess e) → s.Released)

/-- The parts of a run that has mounted the file system. -/
theorem exists_parts (h : ∀ es r, (main argv session iUid iGid).run.Path es r →
      KeepsResources argv session es r)
    {inst inst' : Instance} {es₁ es₂ : List (Event Life)}
    (hinit : (initAdbncFs argv iUid iGid .start).run.Path es₁ (.ok (0, inst)))
    (hfuse : (fuse_main session inst).run.Path es₂ (.ok (session.result, inst'))) :
    ∃ s₁ s₂, resources.Follows .start es₁ s₁ ∧ resources.Follows s₁ es₂ s₂ ∧
      (session.result ≠ 0 → resources.allows s₂ .destroyLocks) := by
  by_cases hresult : session.result = 0
  · have hmain : (main argv session iUid iGid).run.Path (es₁ ++ (es₂ ++ [])) (.ok 0) := by
      refine hinit.bind_except (hfuse.bind_except ?_)
      rw [hresult]
      exact .ret _
    obtain ⟨s, hfollows, -⟩ := h _ _ hmain
    obtain ⟨s₁, h₁, hrest⟩ := Protocol.follows_append.mp hfollows
    obtain ⟨s₂, h₂, -⟩ := Protocol.follows_append.mp hrest
    exact ⟨s₁, s₂, h₁, h₂, fun hne => absurd hresult hne⟩
  · obtain ⟨es₃, inst₃, hdestroy⟩ := path_adbnc_destroy inst'
    have hmain : (main argv session iUid iGid).run.Path (es₁ ++ (es₂ ++ (es₃ ++ [])))
        (.ok session.result) := by
      refine hinit.bind_except (hfuse.bind_except ?_)
      dsimp only
      rw [if_pos hresult]
      exact hdestroy.bind_except (.ret _)
    obtain ⟨s, hfollows, -⟩ := h _ _ hmain
    obtain ⟨s₁, h₁, hrest⟩ := Protocol.follows_append.mp hfollows
    obtain ⟨s₂, h₂, hrest⟩ := Protocol.follows_append.mp hrest
    refine ⟨s₁, s₂, h₁, h₂, fun _ => ?_⟩
    cases hdestroy with
    | call r _ => exact hrest.1

end AdbncFs
