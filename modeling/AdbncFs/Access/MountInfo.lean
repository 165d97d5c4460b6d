import AdbncFs.Names.Paths

/-!
# Mount points of the device

`MountInfo` of `mountInfo.cpp`: the table that is read from the output of `mount`, the mount
point that a path belongs to, and its options.
-/

namespace AdbncFs

open Text

namespace MountInfo

/-- A line of the busybox applet `mount`. -/
structure Entry where
  m_strFileSystem : Str
  m_strMountPoint : Str
  m_strDevType : Str
  m_mountOptions : List Str

/-- The loop over the tokens of the options, which are kept in a set. -/
def Entry.insertOptions (e : Entry) (pch : Str) : Entry :=
  { e with
    m_mountOptions :=
      (strtokAll [',', ')'] pch).foldl (fun options pch => options.insert pch) e.m_mountOptions }

/-- The tokens that `parseMountInfo` cuts out of its array. A word other than `on` or `type` in
their places is itself taken for the options. -/
def Entry.ofTokens (acTokens : Str) : Entry :=
  match strtok_r [' '] acTokens with
  | none => ⟨[], [], [], []⟩
  | some (strFileSystem, save) =>
    match strtok_r [' '] save with
    | none => ⟨strFileSystem, [], [], []⟩
    | some (pch, save) =>
      if pch ≠ "on".toList then Entry.insertOptions ⟨strFileSystem, [], [], []⟩ pch
      else
        match strtok_r [' '] save with
        | none => ⟨strFileSystem, [], [], []⟩
        | some (strMountPoint, save) =>
          match strtok_r [' '] save with
          | none => ⟨strFileSystem, strMountPoint, [], []⟩
          | some (pch, save) =>
            if pch ≠ "type".toList then
              Entry.insertOptions ⟨strFileSystem, strMountPoint, [], []⟩ pch
            else
              match strtok_r [' '] save with
              | none => ⟨strFileSystem, strMountPoint, [], []⟩
              | some (strDevType, save) =>
                match strtok_r ['('] save with
                | none => ⟨strFileSystem, strMountPoint, strDevType, []⟩
                | some (pch, _) =>
                  Entry.insertOptions ⟨strFileSystem, strMountPoint, strDevType, []⟩ pch

/-- `parseMountInfo`, or `none` where its behaviour is undefined: there is no array for the line,
or `strtok_r` gets one without NUL. -/
def Entry.parseMountInfo (pcMountLine : Str) : Option Entry := do
  let iLen := sizeToInt ((c_str pcMountLine).length + 1)
  let acTokens ← copyString iLen (c_str pcMountLine)
  return Entry.ofTokens acTokens

/-- The option `ro` is set. -/
def Entry.isMountedRo (e : Entry) : Bool := e.m_mountOptions.contains "ro".toList

/-- The option `noexec` is set. -/
def Entry.isMountedNoexec (e : Entry) : Bool := e.m_mountOptions.contains "noexec".toList

end MountInfo

/-- The map from mount points to entries. -/
structure MountInfo where
  m_Entries : List (Str × MountInfo.Entry)

namespace MountInfo

/-- `map::insert`: a key that the map has keeps its value. -/
def insert (m : MountInfo) (p : Str × Entry) : MountInfo :=
  if (m.m_Entries.lookup p.1).isSome then m else ⟨m.m_Entries ++ [p]⟩

/-- The map of some entries, each under its mount point. -/
def ofEntries (entries : List Entry) : MountInfo :=
  entries.foldl (fun m entry => m.insert (entry.m_strMountPoint, entry)) ⟨[]⟩

/-- The constructor: every line of the output is parsed and inserted. -/
def ofOutput (mountInfo : List Str) : Option MountInfo := do
  let entries ← mountInfo.mapM Entry.parseMountInfo
  return ofEntries entries

/-- The entry of a mount point. -/
def findMountPointEntry (m : MountInfo) (strPath : Str) : Option Entry := m.m_Entries.lookup strPath

/-- The loop of `mountPoint`. Each turn drops the last name of an absolute path, so there
are at most as many turns as characters; on a relative path the source does not return. -/
def mountPoint.loop (m : MountInfo) : Nat → Str → Option Entry
  | 0, _ => none
  | fuel + 1, strParent =>
    match m.findMountPointEntry strParent with
    | some pMountPointEntry => some pMountPointEntry
    | none => if strParent = ['/'] then none else mountPoint.loop m fuel (parent strParent)

/-- The entry of the mount point that a path belongs to. -/
def mountPoint (m : MountInfo) (pcPath : Str) : Option Entry :=
  mountPoint.loop m (pcPath.length + 1) pcPath

/-- The path is on a device that is mounted read only. Without a mount point it is not. -/
def isMountedRo (m : MountInfo) (pcPath : Str) : Bool := (m.mountPoint pcPath).any (·.isMountedRo)

/-- The path is on a device that is mounted with `noexec`. -/
def isMountedNoexec (m : MountInfo) (pcPath : Str) : Bool :=
  (m.mountPoint pcPath).any (·.isMountedNoexec)

end MountInfo

end AdbncFs
