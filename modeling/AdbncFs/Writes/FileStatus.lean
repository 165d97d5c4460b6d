import Mathlib.Logic.Function.Basic
import AdbncFs.Text.Str

/-!
# Open and truncated files

The data of `FileStatus` in `fileinfoCache.cpp`: for each path whether it was read or
written since the last flush, whether it was truncated, and the local file that holds its
content after a rename. The operations that close a handle or push a file are in
`System/Callbacks.lean`.
-/

namespace AdbncFs

open Text Function

namespace FileStatus

structure Entry where
  m_fPendingOpen : Bool
  m_fForWrite : Bool
  m_fTruncated : Bool
  m_strRenamedFromLocal : Str
  deriving DecidableEq

/-- The default constructor. -/
def Entry.new : Entry := ⟨false, false, false, []⟩

/-- `pendingOpen(fPendingOpen, fForWrite)` -/
def Entry.setPendingOpen (fPendingOpen fForWrite : Bool) (e : Entry) : Entry :=
  { e with m_fPendingOpen := fPendingOpen, m_fForWrite := fForWrite }

/-- `pendingOpen(strRenamedFromLocal)` -/
def Entry.setRenamed (strRenamedFromLocal : Str) (e : Entry) : Entry :=
  { e with m_fPendingOpen := true, m_strRenamedFromLocal := strRenamedFromLocal }

def Entry.setTruncated (fTruncated : Bool) (e : Entry) : Entry :=
  { e with m_fTruncated := fTruncated }

/-- `m_strRenamedFromLocal.clear()` -/
def Entry.clearRenamed (e : Entry) : Entry := { e with m_strRenamedFromLocal := [] }

end FileStatus

/-- The map `m_Entries`. -/
abbrev FileStatus := Str → Option FileStatus.Entry

namespace FileStatus

def empty : FileStatus := fun _ => none

/-- The entry for a path, a new one where the map has none. -/
def entry (s : FileStatus) (pcPath : Str) : Entry := (s pcPath).getD Entry.new

/-- Change the entry for a path, made first where the map has none. -/
def modify (s : FileStatus) (pcPath : Str) (f : Entry → Entry) : FileStatus :=
  update s pcPath (some (f (s.entry pcPath)))

/-- `pendingOpen(pcPath, fPendingOpen, fForWrite)` -/
def setPendingOpen (pcPath : Str) (fPendingOpen fForWrite : Bool) (s : FileStatus) : FileStatus :=
  s.modify pcPath (·.setPendingOpen fPendingOpen fForWrite)

/-- `pendingOpen(pcPath, strRenamedFromLocal)` -/
def setRenamed (pcPath strRenamedFromLocal : Str) (s : FileStatus) : FileStatus :=
  s.modify pcPath (·.setRenamed strRenamedFromLocal)

def setTruncated (pcPath : Str) (fTruncated : Bool) (s : FileStatus) : FileStatus :=
  s.modify pcPath (·.setTruncated fTruncated)

def pendingOpen (s : FileStatus) (pcPath : Str) : Bool := (s pcPath).any (·.m_fPendingOpen)

def truncated (s : FileStatus) (pcPath : Str) : Bool := (s pcPath).any (·.m_fTruncated)

theorem pendingOpen_eq (s : FileStatus) (p : Str) :
    s.pendingOpen p = (s.entry p).m_fPendingOpen := by
  unfold pendingOpen entry
  cases s p <;> rfl

@[simp] theorem entry_modify (s : FileStatus) (p q : Str) (f : Entry → Entry) :
    (s.modify p f).entry q = if q = p then f (s.entry p) else s.entry q := by
  unfold entry modify
  by_cases h : q = p
  · subst h
    simp [entry]
  · simp [h]

@[simp] theorem entry_setPendingOpen (s : FileStatus) (p q : Str) (b c : Bool) :
    (s.setPendingOpen p b c).entry q =
      if q = p then (s.entry p).setPendingOpen b c else s.entry q := entry_modify s p q _

@[simp] theorem entry_setRenamed (s : FileStatus) (p q l : Str) :
    (s.setRenamed p l).entry q = if q = p then (s.entry p).setRenamed l else s.entry q :=
  entry_modify s p q _

end FileStatus

end AdbncFs
