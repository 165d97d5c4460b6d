import AdbncFs.Access.MountInfo
import AdbncFs.Access.UserInfo
import AdbncFs.System.Operations
import AdbncFs.Text.Number

/-!
# Asking the device

The functions of `adbncfs.cpp` that learn about a file on the device or copy it: `execProg`,
`doStat`, `adbnc_getattr`, `adbnc_access`, `adbnc_readlink` and `adbncPushPullCmd`. What is
done with a reply is a pure function of it, and has its own name.
-/

namespace AdbncFs

open Text Interaction

/-- The global variables set once when the file system is initialized. -/
structure Globals where
  pcTempDir : Str
  pUserInfo : Option UserInfo
  pMountInfo : Option MountInfo

def Globals.strTempDirPath (g : Globals) : Str := g.pcTempDir ++ ['/']

/-- The local copy of a device path. -/
def Globals.localPath (g : Globals) (pcPath : Str) : Str := makeLocalPath g.strTempDirPath pcPath

/-! ## `execProg` -/

/-- The reading loop: the queue of lines, and the error of the line that ended it. -/
def execProg.loop (fUseStdErr : Bool) (stream : Str) : Output × Option Int :=
  match _h : getline stream with
  | none => ([], none)
  | some (strTmpString, rest) =>
    if fUseStdErr ∧ find strTmpString ": Permission denied".toList 0 ≠ none then
      ([], some (-EACCES))
    else if fUseStdErr ∧ find strTmpString "does not exist".toList 0 ≠ none then
      ([], some (-ENOENT))
    else
      let r := execProg.loop fUseStdErr rest
      (strTmpString :: r.1, r.2)
termination_by stream.length
decreasing_by exact getline_length _h

def WIFEXITED (status : Int) : Bool := status % 128 = 0

def WEXITSTATUS (status : Int) : Int := status / 256 % 256

/-- The lines read, and the value stored through `piError`, where one is. -/
def execProg (argv : List Str) (fUseStdErr : Bool) : Program Sys (Output × Option Int) := do
  match ← spawn argv fUseStdErr with
  | none => return ([], some (- EIO))
  | some (stream, iExitCode) =>
    let (output, iError) := execProg.loop fUseStdErr stream
    if WIFEXITED iExitCode ∧ WEXITSTATUS iExitCode = ENOENT then
      return (output, some (WEXITSTATUS iExitCode))
    else return (output, iError)

/-! ## `doStat` -/

/-- The tokens of a string that fits the array of `tokenize`. What the functions here do with a
longer one is undefined in the source; their forms with the array (`doStatArray` and others) say
so. -/
def tokenize (strData : Str) : List Str := strtokAll " \t".toList (c_str strData)

/-- The first line with all lines appended to it, itself included, when there are more. -/
def joinedFront : Output → Str
  | [] => []
  | [line] => line
  | front :: rest => rest.foldl (· ++ ·) (front ++ front)

/-- The result of `doStat` for an output of the stat command, and the tokens it stores when
it was given a vector for them. -/
def statResult (fTokens : Bool) (output : Output) : Int × List Str :=
  if output = [] then (-ENOENT, [])
  else if fTokens then
    let tokens := tokenize (joinedFront output)
    if tokens.length < 13 then (-ENOENT, tokens) else (0, tokens.drop (tokens.length - 15))
  else (0, [])

/-- The output of the stat command, from the cache or from the device. -/
def statOutput (pcPath : Str) : Program Sys Output := do
  match ← getStat pcPath with
  | none =>
    let output ← adbncShell (.stat pcPath)
    putStat pcPath output
    return output
  | some output => return output

def doStat (pcPath : Str) (fTokens : Bool) : Program Sys (Int × List Str) := do
  let output ← statOutput pcPath
  return statResult fTokens output

/-! ## `adbnc_getattr` -/

/-- The fields of `struct stat` that are set. -/
structure Stat where
  st_ino : Nat
  st_mode : Nat
  st_nlink : Nat
  st_uid : Nat
  st_gid : Nat
  st_rdev : Nat
  st_size : Int
  st_blksize : Int
  st_blocks : Int
  st_atime : Int
  st_mtime : Int
  st_ctime : Int
  deriving DecidableEq

/-- The `memset` at the beginning. -/
def Stat.zero : Stat := ⟨0, 0, 0, 0, 0, 0, 0, 0, 0, 0, 0, 0⟩

/-- Past the end of the vector the source reads undefined memory; here an empty string is
read there. -/
def token (tokens : List Str) (i : Nat) : Str := tokens.getD i []

/-- An unsigned long stored into a field of 32 bits. -/
def toUnsigned (n : Nat) : Nat := n % 2 ^ 32

/-- An unsigned long stored into a signed field of 64 bits. -/
def toSigned (n : Nat) : Int := if n < 2 ^ 63 then n else n - 2 ^ 64

/-- The `try` block: the fields set up to the first exception. -/
def fillStat (tokens : List Str) : ExceptT Exception (StateM Stat) Unit := do
  let ino ← stoul (token tokens 7) 10
  modify fun s => { s with st_ino := ino }
  let uiRawMode ← stoul (token tokens 3) 16
  modify fun s => { s with st_mode := toUnsigned uiRawMode ||| 0o700, st_nlink := 1 }
  let uid ← stoul (token tokens 4) 10
  modify fun s => { s with st_uid := toUnsigned uid }
  let gid ← stoul (token tokens 5) 10
  modify fun s => { s with st_gid := toUnsigned gid }
  let uiDeviceId ← stoul (token tokens 6) 16
  modify fun s => { s with st_rdev := toUnsigned uiDeviceId }
  let size ← stoul (token tokens 1) 10
  modify fun s => { s with st_size := toSigned size }
  let blksize ← stol (token tokens 14)
  modify fun s => { s with st_blksize := blksize }
  let blocks ← stoul (token tokens 2) 10
  modify fun s => { s with st_blocks := toSigned blocks }
  let atime ← stol (token tokens 11)
  modify fun s => { s with st_atime := atime }
  let mtime ← stol (token tokens 12)
  modify fun s => { s with st_mtime := mtime }
  let ctime ← stol (token tokens 13)
  modify fun s => { s with st_ctime := ctime }

/-- What `adbnc_getattr` returns and stores by the result of `doStat`. -/
def storedAttributes : Int × List Str → Int × Stat
  | (0, tokens) =>
    match (fillStat tokens).run.run Stat.zero with
    | (.ok (), statBuf) => (0, statBuf)
    | (.error _, statBuf) => (- EIO, statBuf)
  | (iRes, _) => (iRes, Stat.zero)

/-- What `adbnc_getattr` returns and stores when the stat command wrote `output`. -/
def attributes (output : Output) : Int × Stat := storedAttributes (statResult true output)

def adbnc_getattr (pcPath : Str) : Program Sys (Int × Stat) := do
  let output ← statOutput pcPath
  return attributes output

/-! ## `adbnc_access` -/

/-- What `adbnc_access` does after `doStat`. -/
def checkAccess (g : Globals) (pcPath : Str) (iMask : Nat) (iRes : Int) (tokens : List Str) :
    Int :=
  if iRes ≠ 0 then
    if iMask = F_OK then -ENOENT else iRes
  else if iMask = F_OK then 0
  else
    match stoul (token tokens 3) 16, stoi (token tokens 4), stoi (token tokens 5) with
    | .ok uiRawMode, .ok iUid, .ok iGid =>
      match g.pUserInfo with
      | none => 0
      | some pUserInfo =>
        let iRes := -pUserInfo.access iUid iGid (toUnsigned uiRawMode) iMask
        match g.pMountInfo with
        | none => iRes
        | some pMountInfo =>
          if iRes ≠ 0 then iRes
          else if iMask &&& W_OK ≠ 0 ∧ pMountInfo.isMountedRo pcPath then -EACCES
          else if iMask &&& X_OK ≠ 0 ∧ pMountInfo.isMountedNoexec pcPath then -EACCES
          else 0
    | _, _, _ => - EIO

def adbnc_access (g : Globals) (pcPath : Str) (iMask : Nat) : Program Sys Int := do
  let (iRes, tokens) ← doStat pcPath true
  return checkAccess g pcPath iMask iRes tokens

/-! ## `adbnc_readlink` -/

/-- The output of the readlink command, from the cache or from the device. -/
def readLinkOutput (pcPath : Str) : Program Sys Output := do
  match ← getReadLink pcPath with
  | none =>
    let output ← adbncShell (.readlink pcPath)
    putReadLink pcPath output
    return output
  | some output => return output

/-- An absolute target made relative to the directory of the link: one `../` for each slash
of `pcPath` but the first. -/
def relativeTarget (pcPath strRes : Str) : Str :=
  match strRes with
  | '/' :: rest => (List.replicate (pcPath.count '/' - 1) "../".toList).flatten ++ rest
  | strRes => strRes

/-- The result and the text stored in the buffer, when one is. -/
def adbnc_readlink (pcPath : Str) (iSize : Nat) : Program Sys (Int × Option Str) := do
  match ← readLinkOutput pcPath with
  | [] => return (-ENOENT, none)
  | front :: _ =>
    let strRes := relativeTarget pcPath front
    if strRes.length ≥ iSize then return (-ENOSYS, none) else return (0, some strRes)

/-! ## `adbncPushPullCmd` -/

/-- The arguments of the adb program. The quoted paths that the source builds as well are
not used by it. -/
def adbArgv (fPush : Bool) (strLocalPath strRemotePath : Str) : List Str :=
  if fPush then ["adb".toList, "push".toList, strLocalPath, strRemotePath]
  else ["adb".toList, "pull".toList, strRemotePath, strLocalPath]

def adbncPushPullCmd (g : Globals) (fPush : Bool) (strLocalPath strRemotePath : Str) :
    Program Sys Int := do
  let iRes ← adbnc_access g (if fPush then parent strRemotePath else strRemotePath)
    (if fPush then W_OK else R_OK)
  if iRes = 0 then
    let (_, iError) ← execProg (adbArgv fPush strLocalPath strRemotePath) true
    return iError.getD 0
  else return iRes

def adbncPull (g : Globals) (strRemoteSource strLocalDestination : Str) : Program Sys Int :=
  adbncPushPullCmd g false strLocalDestination strRemoteSource

end AdbncFs
