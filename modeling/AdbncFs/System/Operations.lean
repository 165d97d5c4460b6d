import AdbncFs.Interaction.Program
import AdbncFs.Cache.FileCache
import AdbncFs.Device.Command
import AdbncFs.Writes.FileStatus

/-!
# The operations the callbacks are made of

A callback is a program over the operations of `Sys`: the calls on the two caches, the
commands sent to the device, the programs started on the local host and the system calls.
Each operation is one step, so a callback can be run alone (`Env.handle`) or step by step
among others.

`fileinfoCache.cpp` only declares `adbncPush`, which `adbncfs.cpp` defines. `Linked` has it
as one more operation; `System/Linking.lean` puts the definition in its place.
-/

namespace AdbncFs

open Text Interaction

/-- The system calls used. -/
inductive Syscall
  | stat (pcName : Str)
  | open' (path : Str) (flags : Int)
  | close (fd : Int)
  | fsync (fd : Int)
  | pread (fd : Int) (iSize : Nat) (iOffset : Int)
  | pwrite (fd : Int) (data : Str) (iOffset : Int)
  | truncate (path : Str) (iSize : Int)
  | mknod (path : Str) (mode rdev : Nat)
  | unlink (path : Str)

/-- A system call gives its value, or `errno` where it returns -1. -/
def Syscall.Res : Syscall → Type
  | .pread .. => Except Int Str
  | _ => Except Int Int

namespace Sys

/-- What a callback does, one by one. -/
inductive Op
  /-- `fileCache.getStat`, `fileCache.getReadLink` -/
  | cacheGet (k : Kind) (pcPath : Str)
  /-- `fileCache.putStat`, `fileCache.putReadLink` -/
  | cachePut (k : Kind) (pcPath : Str) (output : Output)
  /-- `fileCache.invalidate` -/
  | invalidate (pcPath : Str)
  /-- read `fileStatus` -/
  | fileStatus
  /-- change `fileStatus` -/
  | setFileStatus (f : FileStatus → FileStatus)
  /-- `execCommandViaNetCat` with the line of the command -/
  | shell (command : Command)
  /-- start a program; the answer is what it writes to the pipe and its wait status, or
  `none` when it could not be started -/
  | spawn (argv : List Str) (fUseStdErr : Bool)
  | syscall (call : Syscall)

/-- What the callback gets. -/
def Op.Res : Op → Type
  | .cacheGet _ _ => Option Output
  | .cachePut _ _ _ | .invalidate _ | .setFileStatus _ => Unit
  | .fileStatus => FileStatus
  | .shell _ => Output
  | .spawn _ _ => Option (Str × Int)
  | .syscall call => call.Res

end Sys

/-- The operations without `adbncPush`. -/
def Sys : Sig := ⟨Sys.Op, Sys.Op.Res⟩

/-- The operations that the callbacks are written with. -/
inductive Linked.Op
  | sys (op : Sys.Op)
  | adbncPush (strLocalSource strRemoteDestination : Str)

def Linked.Op.Res : Linked.Op → Type
  | .sys op => op.Res
  | .adbncPush _ _ => Int

/-- The operations before linking. -/
def Linked : Sig := ⟨Linked.Op, Linked.Op.Res⟩

/-- The calls that need no `adbncPush`. -/
def sysCalls {α : Type} (p : Program Sys α) : Program Linked α :=
  p.expand fun op => Program.send (S := Linked) (.sys op)

instance : MonadLift (Program Sys) (Program Linked) := ⟨sysCalls⟩

/-! ## Single operations -/

def getStat (pcPath : Str) : Program Sys (Option Output) :=
  .send (S := Sys) (.cacheGet .stat pcPath)

def putStat (pcPath : Str) (output : Output) : Program Sys Unit :=
  .send (S := Sys) (.cachePut .stat pcPath output)

def getReadLink (pcPath : Str) : Program Sys (Option Output) :=
  .send (S := Sys) (.cacheGet .readLink pcPath)

def putReadLink (pcPath : Str) (output : Output) : Program Sys Unit :=
  .send (S := Sys) (.cachePut .readLink pcPath output)

def invalidate (pcPath : Str) : Program Sys Unit := .send (S := Sys) (.invalidate pcPath)

def fileStatus : Program Sys FileStatus := .send (S := Sys) .fileStatus

def setFileStatus (f : FileStatus → FileStatus) : Program Sys Unit :=
  .send (S := Sys) (.setFileStatus f)

/-- Execute a shell command on the device, with `busybox ` in front. -/
def adbncShell (command : Command) : Program Sys Output := .send (S := Sys) (.shell command)

def spawn (argv : List Str) (fUseStdErr : Bool) : Program Sys (Option (Str × Int)) :=
  .send (S := Sys) (.spawn argv fUseStdErr)

def syscall (call : Syscall) : Program Sys call.Res := .send (S := Sys) (.syscall call)

def adbncPush (strLocalSource strRemoteDestination : Str) : Program Linked Int :=
  .send (S := Linked) (.adbncPush strLocalSource strRemoteDestination)

/-! ## The world -/

/-- What lies outside the program: the clock, the device behind netcat, the programs that
can be started, and the local host. -/
structure Env (ε : Type) where
  time : ε → Int × ε
  shell : Command → ε → Output × ε
  spawn : List Str → Bool → ε → Option (Str × Int) × ε
  syscall : (call : Syscall) → ε → call.Res × ε

/-- The global variables that change, and what lies outside. -/
structure World (ε : Type) where
  fileCache : FileCache
  fileStatus : FileStatus
  env : ε

variable {ε : Type}

/-- The caches answer their calls, each with one reading of the clock; the environment
answers the rest. -/
def Env.handle (env : Env ε) : Handler Sys (World ε)
  | .cacheGet k pcPath, w =>
    let now := env.time w.env
    (w.fileCache.get k pcPath now.1, { w with env := now.2 })
  | .cachePut k pcPath output, w =>
    let now := env.time w.env
    ((), { w with fileCache := w.fileCache.put k pcPath output now.1, env := now.2 })
  | .invalidate pcPath, w => ((), { w with fileCache := w.fileCache.invalidate pcPath })
  | .fileStatus, w => (w.fileStatus, w)
  | .setFileStatus f, w => ((), { w with fileStatus := f w.fileStatus })
  | .shell command, w =>
    let r := env.shell command w.env
    (r.1, { w with env := r.2 })
  | .spawn argv fUseStdErr, w =>
    let r := env.spawn argv fUseStdErr w.env
    (r.1, { w with env := r.2 })
  | .syscall call, w =>
    let r := env.syscall call w.env
    (r.1, { w with env := r.2 })

end AdbncFs
