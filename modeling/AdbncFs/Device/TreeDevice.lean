import AdbncFs.FileTree.Tree
import AdbncFs.Names.Normalized
import AdbncFs.System.Linking

/-!
# A device that is a directory tree

`TreeDevice.env` answers the operations from a tree: each command does what its busybox
applet does, and `adb push` writes a file. What the claims about the cache leave open is a
parameter: the clock, the stat output of an existing path, which commands the device refuses
to carry out, the messages of adb, and the system calls of the local host.
-/

namespace AdbncFs

open Text Interaction FileTree

/-- What is not fixed by the tree. -/
structure TreeDevice where
  /-- the value of the clock when it is read for the `n`-th time -/
  clock : Nat → Int
  /-- what the stat command writes for a path -/
  reply : DirTree Name → DevPath → Output
  reply_ne_nil : ∀ t p, reply t p ≠ [] ↔ has t p = true
  /-- a command that fails whatever the tree is, as on a file system mounted read-only -/
  refuses : DirTree Name → Command → Bool
  refusesPush : DirTree Name → DevPath → Bool
  /-- what adb writes to its standard error, and its wait status -/
  adb : DirTree Name → List Str → Option (Str × Int)
  /-- the system calls of the local host, by the number of operations before them -/
  syscall : (call : Syscall) → Nat → call.Res

/-- The tree and the number of operations of the local host so far. -/
structure TreeState where
  tree : DirTree Name
  ops : Nat

namespace TreeDevice

/-- What a command does to the tree. -/
def apply (t : DirTree Name) : Command → DirTree Name
  | .mkdir p => ((DevPath.ofStr p).map (mkdir t)).getD t
  | .rmdir p => ((DevPath.ofStr p).map (rmdir t)).getD t
  | .rm p => ((DevPath.ofStr p).map (rm t)).getD t
  | .mv p q => (do return mv t (← DevPath.ofStr p) (← DevPath.ofStr q)).getD t
  | .touch p => ((DevPath.ofStr p).map (touch t)).getD t
  | _ => t

/-- The name of a local file, from behind its last slash. -/
def baseName (l : Str) : Str := (l.reverse.takeWhile (· ≠ '/')).reverse

/-- What `adb push` of the local file `l` does to the tree. -/
def pushed (d : TreeDevice) (t : DirTree Name) (l r : Str) : DirTree Name :=
  match DevPath.ofStr r, Name.ofStr (baseName l) with
  | some p, some n => if d.refusesPush t p then t else push t p n
  | _, _ => t

def env (d : TreeDevice) : Env TreeState where
  time s := (d.clock s.ops, { s with ops := s.ops + 1 })
  shell
    | .stat p, s => (((DevPath.ofStr p).map (d.reply s.tree)).getD [], s)
    | c, s => ([], { s with tree := if d.refuses s.tree c then s.tree else apply s.tree c })
  spawn argv _ s :=
    match argv with
    | [_, cmd, l, r] =>
      (d.adb s.tree argv,
        { s with tree := if cmd = "push".toList then d.pushed s.tree l r else s.tree })
    | _ => (none, s)
  syscall call s := (d.syscall call s.ops, { s with ops := s.ops + 1 })

end TreeDevice

end AdbncFs
