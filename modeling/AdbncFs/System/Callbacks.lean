import AdbncFs.System.Attributes

/-!
# The callbacks

The callbacks of `adbncfs.cpp` that open, read, write, create, rename and remove files, with
the operations of `FileStatus` they use. Each is the program that the source is, one
operation for each of its calls. `Callback` is a call of FUSE with its arguments.
-/

namespace AdbncFs

open Text Interaction

/-- The fields of `struct fuse_file_info` that are used. -/
structure FileInfo where
  fh : Int
  flags : Int
  deriving DecidableEq

/-! ## `FileStatus` -/

/-- `FileStatus::Entry::flush` of an entry, with what it does to the entry in the map. -/
def FileStatus.Entry.flush (e : FileStatus.Entry) (pcPath strFromLocalPath : Str) :
    Program Linked Int := do
  if e.m_fPendingOpen then
    let iRes ←
      if e.m_strRenamedFromLocal ≠ [] then do
        let iRes ←
          if e.m_fForWrite then adbncPush e.m_strRenamedFromLocal pcPath else pure 0
        setFileStatus (·.modify pcPath (·.clearRenamed))
        pure iRes
      else if e.m_fForWrite then adbncPush strFromLocalPath pcPath
      else pure 0
    setFileStatus (·.modify pcPath (·.setPendingOpen false false))
    return iRes
  else return 0

/-- `FileStatus::flush` -/
def FileStatus.flush (pcPath strFromLocalPath : Str) : Program Linked Int := do
  match (← fileStatus) pcPath with
  | none => return 0
  | some e => e.flush pcPath strFromLocalPath

/-- `FileStatus::Entry::release`. After a close that succeeds the result is still the one
it was initialized with. -/
def FileStatus.Entry.release (pcPath : Str) (iFh : Int) : Program Linked Int := do
  let iRes ←
    if iFh ≠ -1 then do
      match ← syscall (.close iFh) with
      | .error errno => pure (-errno)
      | .ok _ => pure (-EBADF)
    else pure (-EBADF)
  setFileStatus (·.modify pcPath (·.setPendingOpen false false))
  return iRes

/-- `FileStatus::release` -/
def FileStatus.release (pcPath : Str) (iFh : Int) : Program Linked Int := do
  match (← fileStatus) pcPath with
  | none => return 0
  | some _ => FileStatus.Entry.release pcPath iFh

/-! ## Reading and writing -/

def fileExists (pcName : Str) : Program Sys Bool := do
  match ← syscall (.stat pcName) with
  | .ok _ => return true
  | .error _ => return false

/-- The part of `adbnc_open` that gets the local copy. -/
def prepareCopy (g : Globals) (pcPath : Str) : Program Sys Int := do
  if (← fileStatus).truncated pcPath then
    setFileStatus (·.setTruncated pcPath false)
    return 0
  else
    let (iRes, _) ← doStat pcPath false
    if iRes = 0 then
      if ← fileExists pcPath then return 0 else adbncPull g pcPath (g.localPath pcPath)
    else return iRes

/-- The result and the handle stored in `pFi`, when one is. -/
def adbnc_open (g : Globals) (pcPath : Str) (pFi : FileInfo) : Program Sys (Int × Option Int) := do
  let iRes ← prepareCopy g pcPath
  if iRes = 0 then
    match ← syscall (.open' (g.localPath pcPath) pFi.flags) with
    | .ok fh => return (0, some fh)
    | .error errno => return (-errno, some (-1))
  else return (iRes, none)

/-- The result and the bytes read. -/
def adbnc_read (pcPath : Str) (iSize : Nat) (iOffset : Int) (pFi : FileInfo) :
    Program Linked (Int × Str) := do
  setFileStatus (·.setPendingOpen pcPath true false)
  if pFi.fh ≠ -1 then
    match ← syscall (.pread pFi.fh iSize iOffset) with
    | .ok pcBuf => return (pcBuf.length, pcBuf)
    | .error errno => return (-errno, [])
  else return (-EBADF, [])

def adbnc_write (pcPath pcBuf : Str) (iOffset : Int) (pFi : FileInfo) : Program Linked Int := do
  setFileStatus (·.setPendingOpen pcPath true true)
  match ← syscall (.pwrite pFi.fh pcBuf iOffset) with
  | .ok iRes => return iRes
  | .error errno => return -errno

def adbnc_flush (g : Globals) (pcPath : Str) (pFi : FileInfo) : Program Linked Int := do
  match ← syscall (.fsync pFi.fh) with
  | .error errno =>
    if errno = EBADF then flushPending else return -errno
  | .ok _ => flushPending
where
  /-- The branch for a local file that was synchronized, or is closed already. -/
  flushPending : Program Linked Int := do
    let strLocalPath := g.localPath pcPath
    if (← fileStatus).pendingOpen pcPath then invalidate pcPath
    FileStatus.flush pcPath strLocalPath

def adbnc_fsync (g : Globals) (pcPath : Str) (pFi : FileInfo) : Program Linked Int := do
  match ← syscall (.fsync pFi.fh) with
  | .error errno => return -errno
  | .ok _ =>
    if (← fileStatus).pendingOpen pcPath then
      let iRes ← adbncPush (g.localPath pcPath) pcPath
      setFileStatus (·.setPendingOpen pcPath false false)
      invalidate pcPath
      return iRes
    else return 0

def adbnc_release (pcPath : Str) (pFi : FileInfo) : Program Linked Int :=
  FileStatus.release pcPath pFi.fh

def adbnc_truncate (g : Globals) (pcPath : Str) (iSize : Int) : Program Linked Int := do
  let (iRes, _) ← doStat pcPath false
  if iRes = 0 then
    match ← syscall (.truncate (g.localPath pcPath) iSize) with
    | .ok _ =>
      setFileStatus (·.setTruncated pcPath true)
      invalidate pcPath
      return 0
    | .error errno => return -errno
  else return iRes

/-! ## Changing the tree -/

def adbnc_utimens (pcPath : Str) : Program Linked Int := do
  invalidate pcPath
  let _ ← adbncShell (.touch pcPath)
  return 0

def adbnc_mknod (g : Globals) (pcPath : Str) (mode rdev : Nat) : Program Linked Int := do
  let strLocalPath := g.localPath pcPath
  match ← syscall (.mknod strLocalPath mode rdev) with
  | .error errno => return -errno
  | .ok _ =>
    let iRes ← adbncPush strLocalPath pcPath
    if iRes = 0 then
      let _ ← adbncShell .sync
    invalidate pcPath
    return iRes

def adbnc_mkdir (pcPath : Str) : Program Linked Int := do
  invalidate pcPath
  let _ ← adbncShell (.mkdir pcPath)
  return 0

def adbnc_rename (g : Globals) (pcFrom pcTo : Str) : Program Linked Int := do
  let _ ← adbncShell (.mv pcFrom pcTo)
  invalidate pcTo
  invalidate pcFrom
  if (← fileStatus).pendingOpen pcFrom then
    setFileStatus (·.setRenamed pcTo (g.localPath pcFrom))
  return 0

def adbnc_rmdir (pcPath : Str) : Program Linked Int := do
  invalidate pcPath
  let _ ← adbncShell (.rmdir pcPath)
  return 0

def adbnc_unlink (g : Globals) (pcPath : Str) : Program Linked Int := do
  invalidate pcPath
  let _ ← syscall (.unlink (g.localPath pcPath))
  let _ ← adbncShell (.rm pcPath)
  return 0

/-! ## Calls -/

/-- A call of a callback. -/
inductive Callback
  | getattr (pcPath : Str)
  | access (pcPath : Str) (iMask : Nat)
  | readlink (pcPath : Str) (iSize : Nat)
  | open' (pcPath : Str) (pFi : FileInfo)
  | read (pcPath : Str) (iSize : Nat) (iOffset : Int) (pFi : FileInfo)
  | write (pcPath pcBuf : Str) (iOffset : Int) (pFi : FileInfo)
  | flush (pcPath : Str) (pFi : FileInfo)
  | fsync (pcPath : Str) (pFi : FileInfo)
  | release (pcPath : Str) (pFi : FileInfo)
  | truncate (pcPath : Str) (iSize : Int)
  | utimens (pcPath : Str)
  | mknod (pcPath : Str) (mode rdev : Nat)
  | mkdir (pcPath : Str)
  | rename (pcFrom pcTo : Str)
  | rmdir (pcPath : Str)
  | unlink (pcPath : Str)
  deriving DecidableEq

/-- The program of a call, with the result that FUSE gets. -/
def Callback.program (g : Globals) : Callback → Program Linked Int
  | getattr p => do return (← adbnc_getattr p).1
  | access p iMask => do return ← adbnc_access g p iMask
  | readlink p iSize => do return (← adbnc_readlink p iSize).1
  | open' p pFi => do return (← adbnc_open g p pFi).1
  | read p iSize iOffset pFi => do return (← adbnc_read p iSize iOffset pFi).1
  | write p pcBuf iOffset pFi => adbnc_write p pcBuf iOffset pFi
  | flush p pFi => adbnc_flush g p pFi
  | fsync p pFi => adbnc_fsync g p pFi
  | release p pFi => adbnc_release p pFi
  | truncate p iSize => adbnc_truncate g p iSize
  | utimens p => adbnc_utimens p
  | mknod p mode rdev => adbnc_mknod g p mode rdev
  | mkdir p => adbnc_mkdir p
  | rename pcFrom pcTo => adbnc_rename g pcFrom pcTo
  | rmdir p => adbnc_rmdir p
  | unlink p => adbnc_unlink g p

end AdbncFs
