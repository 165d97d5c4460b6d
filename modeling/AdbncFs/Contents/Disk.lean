import AdbncFs.System.Transfers
import AdbncFs.Writes.Opening

/-!
# The files outside the program

`Disk` is what the calls can change outside the program: the files of the local host, the
files of the device and the open handles. `DiskView` says what each operation makes of it,
on a host and a device that nobody else uses and that behave as documented. `Callback.reply`
is a call with all that it answers: the handle of an open and the bytes of a read too.
-/

namespace AdbncFs

open Text Interaction Function

structure Disk where
  /-- the files of the local host -/
  content : Str → Option Str
  /-- the files of the device -/
  remote : Str → Option Str
  /-- the files of the local host that are open -/
  handle : Int → Option Str

namespace Disk

def put (l : Str) (c : Option Str) (d : Disk) : Disk := { d with content := update d.content l c }

def push (p : Str) (c : Option Str) (d : Disk) : Disk := { d with remote := update d.remote p c }

def setHandle (fh : Int) (l : Option Str) (d : Disk) : Disk :=
  { d with handle := update d.handle fh l }

@[simp] theorem content_put (l : Str) (c : Option Str) (d : Disk) : (d.put l c).content l = c :=
  update_self ..

theorem content_put_ne {l m : Str} (h : m ≠ l) (c : Option Str) (d : Disk) :
    (d.put l c).content m = d.content m := update_of_ne h _ _

@[simp] theorem content_push (p : Str) (c : Option Str) (d : Disk) :
    (d.push p c).content = d.content := rfl

@[simp] theorem content_setHandle (fh : Int) (l : Option Str) (d : Disk) :
    (d.setHandle fh l).content = d.content := rfl

@[simp] theorem put_self (l : Str) (d : Disk) : d.put l (d.content l) = d := by
  rw [put, update_eq_self]

@[simp] theorem push_self (p : Str) (d : Disk) : d.push p (d.remote p) = d := by
  rw [push, update_eq_self]

@[simp] theorem setHandle_self (fh : Int) (d : Disk) : d.setHandle fh (d.handle fh) = d := by
  rw [setHandle, update_eq_self]

end Disk

/-- The bytes that `pread` reads. -/
def slice (iSize : Nat) (iOffset : Int) (c : Str) : Str := (c.drop iOffset.toNat).take iSize

/-- What `pwrite` makes of a file: a gap before the data is filled with zeros. -/
def splice (data : Str) (iOffset : Int) (c : Str) : Str :=
  (c ++ List.replicate (iOffset.toNat - c.length) '\x00').take iOffset.toNat ++ data ++
    c.drop (iOffset.toNat + data.length)

/-- The file type in a mode is that of a regular file. -/
def IsRegular (mode : Nat) : Prop := mode &&& 0o170000 = 0o100000

/-- An answer of a system call that succeeds as `P` says or fails as `Q` says. -/
def Gives {α : Type} (P : α → Prop) (Q : Prop) : Except Int α → Prop
  | .ok a => P a
  | .error errno => 0 < errno ∧ Q

structure DiskView {ε : Type} (env : Env ε) where
  disk : ε → Disk
  time_disk : ∀ e, disk (env.time e).2 = disk e
  asks_disk : ∀ command e, command.Asks → disk (env.shell command e).2 = disk e
  stat_disk : ∀ l e, disk (env.syscall (.stat l) e).2 = disk e
  /-- `stat` does not find a file that is not there. -/
  stat_gives : ∀ l e, Gives (fun _ => (disk e).content l ≠ none) True (env.syscall (.stat l) e).1
  fsync_disk : ∀ fd e, disk (env.syscall (.fsync fd) e).2 = disk e
  fsync_gives : ∀ fd e, Gives (fun _ => True) True (env.syscall (.fsync fd) e).1
  /-- `open` without `O_CREAT` and `O_TRUNC` gives a handle that is not in use. -/
  open_gives : ∀ l (pFi : FileInfo) e, pFi.Plain →
    Gives (fun fh => (disk e).content l ≠ none ∧ (disk e).handle fh = none ∧
        disk (env.syscall (.open' l pFi.flags) e).2 = (disk e).setHandle fh (some l))
      (disk (env.syscall (.open' l pFi.flags) e).2 = disk e)
      (env.syscall (.open' l pFi.flags) e).1
  close_disk : ∀ fd e, ∃ l, disk (env.syscall (.close fd) e).2 = (disk e).setHandle fd l
  pread_disk : ∀ fd n off e, disk (env.syscall (.pread fd n off) e).2 = disk e
  pread_gives : ∀ fd n off e l c, (disk e).handle fd = some l → (disk e).content l = some c →
    Gives (fun data => data = slice n off c) True (env.syscall (.pread fd n off) e).1
  /-- `pwrite` may write less than it is asked to. -/
  pwrite_gives : ∀ fd data off e l c, (disk e).handle fd = some l → (disk e).content l = some c →
    Gives (fun k => 0 ≤ k ∧ disk (env.syscall (.pwrite fd data off) e).2 =
        (disk e).put l (some (splice (data.take k.toNat) off c)))
      (disk (env.syscall (.pwrite fd data off) e).2 = disk e)
      (env.syscall (.pwrite fd data off) e).1
  /-- `mknod` does not replace a file. -/
  mknod_gives : ∀ l mode rdev e, IsRegular mode →
    Gives (fun _ => (disk e).content l = none ∧
        disk (env.syscall (.mknod l mode rdev) e).2 = (disk e).put l (some []))
      (disk (env.syscall (.mknod l mode rdev) e).2 = disk e)
      (env.syscall (.mknod l mode rdev) e).1
  /-- `adb pull` leaves its destination alone or replaces it by the device's file. -/
  pull_disk : ∀ l p e, ∃ c, disk (env.spawn (adbArgv false l p) true e).2 = (disk e).put l c ∧
    (c = (disk e).content l ∨ c = ((disk e).remote p).or ((disk e).content l))
  /-- `adb pull` of which no error was recognized has done so. -/
  pull_ok : ∀ l p e, transferResult (env.spawn (adbArgv false l p) true e).1 = 0 →
    disk (env.spawn (adbArgv false l p) true e).2 =
      (disk e).put l (((disk e).remote p).or ((disk e).content l))
  push_disk : ∀ l p e, ∃ c, disk (env.spawn (adbArgv true l p) true e).2 = (disk e).push p c
  /-- `adb push` of which no error was recognized has replaced its destination. -/
  push_ok : ∀ l p e c, (disk e).content l = some c →
    transferResult (env.spawn (adbArgv true l p) true e).1 = 0 →
      disk (env.spawn (adbArgv true l p) true e).2 = (disk e).push p (some c)

/-! ## All that a call answers -/

/-- What FUSE gets from a call: the result, the bytes of a read, the handle of an open. -/
structure Reply where
  result : Int
  data : Str
  fh : Option Int
  deriving DecidableEq

namespace Callback

def reply (g : Globals) : Callback → Program Linked Reply
  | open' p pFi => do
    let (iRes, fh) ← adbnc_open g p pFi
    return ⟨iRes, [], fh⟩
  | read p iSize iOffset pFi => do
    let (iRes, pcBuf) ← adbnc_read p iSize iOffset pFi
    return ⟨iRes, pcBuf, none⟩
  | c => do return ⟨← c.program g, [], none⟩

end Callback

end AdbncFs
