import AdbncFs.System.Attributes

/-!
# Asking for the file system of a path

`adbnc_statfs` runs `df` twice, for the blocks and for the inodes, and takes the numbers from
the second line of each reply.
-/

namespace AdbncFs

open Text Interaction

/-- The fields of `struct statvfs` that are set. -/
structure StatVfs where
  f_bsize : Nat
  f_frsize : Nat
  f_blocks : Nat
  f_bfree : Nat
  f_bavail : Nat
  f_files : Nat
  f_ffree : Nat
  f_favail : Nat
  f_namemax : Nat
  deriving DecidableEq

/-- The `memset` at the beginning. -/
def StatVfs.zero : StatVfs := ⟨0, 0, 0, 0, 0, 0, 0, 0, 0⟩

/-- The first `try` block: the fields set up to the first exception. -/
def fillBlocks (tokens : List Str) : ExceptT Exception (StateM StatVfs) Unit := do
  modify fun s => { s with f_bsize := 4096 }
  let blocks ← stoul (token tokens 1) 10
  modify fun s => { s with f_blocks := blocks, f_frsize := s.f_bsize }
  let bfree ← stoul (token tokens 3) 10
  modify fun s => { s with f_bfree := bfree, f_bavail := bfree }

/-- The second `try` block. -/
def fillInodes (tokens : List Str) : ExceptT Exception (StateM StatVfs) Unit := do
  let files ← stoul (token tokens 1) 10
  modify fun s => { s with f_files := files }
  let ffree ← stoul (token tokens 3) 10
  modify fun s => { s with f_ffree := ffree, f_favail := ffree }

/-- What is done with the tokens of a second line. Fewer than 6 are no error and set nothing. -/
def storeDf (fill : List Str → ExceptT Exception (StateM StatVfs) Unit) (tokens : List Str)
    (fst : StatVfs) : Int × StatVfs :=
  if tokens.length ≥ 6 then
    match (fill tokens).run.run fst with
    | (.ok (), fst) => (0, fst)
    | (.error _, fst) => (- EIO, fst)
  else (0, fst)

/-- What is done with the reply to a df command. -/
def readDf (fill : List Str → ExceptT Exception (StateM StatVfs) Unit) (output : Output)
    (fst : StatVfs) : Int × StatVfs :=
  match output with
  | _ :: front :: _ => storeDf fill (tokenize front) fst
  | _ => (- EIO, fst)

/-- The result and what is stored in `pFst`. -/
def adbnc_statfs (pcPath : Str) : Program Sys (Int × StatVfs) := do
  if pcPath ≠ ['/'] then
    let (iRes, fst) := readDf fillBlocks (← adbncShell (.dfBlocks pcPath)) StatVfs.zero
    if iRes = 0 then
      let (iRes, fst) := readDf fillInodes (← adbncShell (.dfInodes pcPath)) fst
      return (iRes, { fst with f_namemax := 1024 })
    else return (iRes, fst)
  else return (0, StatVfs.zero)

end AdbncFs
