import AdbncFs.Contents.Sharing
import AdbncFs.Contents.WriteBack

/-!
# Sessions on the files of the device

A caller opens files, reads and writes them through their handles, flushes and closes them. To it
they are a store that writes back: `onStore` says which call it may make next, in terms of this
store, and what the reply is. Each part of `Caller.Allows` excludes a case in which the code loses
data. A path of which a save has failed is given up. `Stands` relates what the caller sees of
`FileStatus` and the disk to its store.
-/

namespace AdbncFs

open Text Interaction Function WriteBack

/-- Calls with all that they answer. -/
def Calls : Sig := ⟨Callback, fun _ => Reply⟩

namespace Callback

/-- The path of a call. -/
def path : Callback → Str
  | getattr p | access p _ | readlink p _ | open' p _ | read p _ _ _ | write p _ _ _ | flush p _
  | fsync p _ | release p _ | truncate p _ | utimens p | mknod p _ _ | mkdir p | rename p _
  | rmdir p | unlink p => p

def Reads (p : Str) : Callback → Prop
  | read q _ _ _ => q = p
  | _ => False

def Writes (p : Str) : Callback → Prop
  | write q _ _ _ => q = p
  | _ => False

/-- The calls that send a file to the device. -/
def Sends (p : Str) : Callback → Prop
  | flush q _ | fsync q _ | mknod q _ _ => q = p
  | _ => False

/-- The callbacks that ask the device for attributes. -/
def Asks : Callback → Prop
  | getattr _ | access .. | readlink .. => True
  | _ => False

end Callback

/-- What a call with this reply is to the store. -/
def storeAct : Event Calls → Option (Act Str Int Str)
  | ⟨.open' p _, (r : Reply)⟩ => if r.result = 0 then r.fh.map (.opened p) else none
  | ⟨.write p pcBuf iOffset _, (r : Reply)⟩ =>
    if 0 ≤ r.result then some (.edited p (splice (pcBuf.take r.result.toNat) iOffset)) else none
  | ⟨.flush p _, (r : Reply)⟩ | ⟨.fsync p _, (r : Reply)⟩ =>
    if r.result = 0 then some (.saved p) else none
  | ⟨.release _ pFi, _⟩ => some (.closed pFi.fh)
  | ⟨.mknod p _ _, (r : Reply)⟩ => if r.result = 0 then some (.created p []) else none
  | _ => none

/-- What a caller knows of its files. -/
structure Caller where
  /-- the paths no save of which has failed -/
  paths : Set Str
  store : Store Str Int Str
  /-- the paths that were read after they were last written -/
  readSince : Set Str

namespace Caller

/-- A caller that has made no calls yet, on a device that has these files. -/
def start (S : Set Str) (remote : Str → Option Str) : Caller := ⟨S, Store.atRest remote, ∅⟩

/-- What it knows after a call. -/
def after (s : Caller) (e : Event Calls) : Caller where
  paths := {p | p ∈ s.paths ∧ ¬ (Callback.Sends p e.1 ∧ Reply.result e.2 ≠ 0)}
  store := match storeAct e with
    | none => s.store
    | some a => s.store.apply a
  readSince := {p | Callback.Reads p e.1 ∨ p ∈ s.readSince ∧ ¬ Callback.Writes p e.1}

/-- What a caller must keep to. It opens and closes a file only when the changes to it are
saved, for an open gets the device's content again and a close clears the marks. It flushes
changes only if the path was not read after the last write, for a read clears the mark. -/
def Allows (s : Caller) : Callback → Prop
  | .open' p pFi => p ∈ s.paths ∧ pFi.Plain ∧ s.store.unsaved p = none
  | .read p _ _ pFi | .write p _ _ pFi => p ∈ s.paths ∧ s.store.handles pFi.fh = some p
  | .flush p _ => p ∈ s.paths ∧ (s.store.unsaved p = none ∨ p ∉ s.readSince)
  | .fsync p _ => p ∈ s.paths
  | .release p pFi => p ∈ s.paths ∧ s.store.handles pFi.fh = some p ∧ s.store.unsaved p = none
  | .mknod p mode _ => p ∈ s.paths ∧ IsRegular mode
  | c => c.Asks

/-- What it may count on. A new handle is not in use, and a read gives what the store has. -/
def Answers (s : Caller) : Event Calls → Prop
  | ⟨.open' p _, (r : Reply)⟩ => r.result = 0 →
      s.store.content p ≠ none ∧ ∃ fh, r.fh = some fh ∧ s.store.handles fh = none
  | ⟨.read p iSize iOffset _, (r : Reply)⟩ => 0 ≤ r.result →
      ∃ c, s.store.content p = some c ∧ r.data = slice iSize iOffset c ∧ r.result = r.data.length
  | _ => True

end Caller

def onStore : Protocol Calls Caller where
  allows s c := s.Allows c
  next s c r t := s.Answers ⟨c, r⟩ ∧ t = s.after ⟨c, r⟩

/-! ## The relation -/

variable {g : Globals} {S : Set Str} {s t : Caller} {x y : View} {p : Str}

/-- What the view of a path has to do with the store. -/
structure Holds (g : Globals) (p : Str) (x : View) (s : Store Str Int Str) (readSince : Prop) :
    Prop where
  stored : x.disk.remote p = s.stored p
  copy : x.disk.content (g.localPath p) = none ∨ x.disk.content (g.localPath p) = s.content p
  opened : ∀ fh, s.handles fh = some p → x.disk.content (g.localPath p) ≠ none
  unsaved : s.unsaved p ≠ none → (x.status.entry p).m_fPendingOpen = true ∧
    (¬ readSince → (x.status.entry p).m_fForWrite = true)
  pending : (x.status.entry p).m_fPendingOpen = true → x.disk.content (g.localPath p) ≠ none
  notRenamed : (x.status.entry p).m_strRenamedFromLocal = []
  notTruncated : (x.status.entry p).m_fTruncated = false
  host : x.disk.content p = none

structure Stands (g : Globals) (s : Caller) (x : View) : Prop where
  holds : ∀ p ∈ s.paths, Holds g p x s.store (p ∈ s.readSince)
  handle : ∀ fh p, s.store.handles fh = some p → x.disk.handle fh = some (g.localPath p)

/-- Only what belongs to the path has changed. -/
structure View.OnlyAt (g : Globals) (p : Str) (x y : View) : Prop where
  entry : ∀ q ≠ p, y.status.entry q = x.status.entry q
  content : ∀ l ≠ g.localPath p, y.disk.content l = x.disk.content l
  remote : ∀ q ≠ p, y.disk.remote q = x.disk.remote q

theorem about_path {e : Event Calls} {a : Act Str Int Str} (ha : storeAct e = some a)
    (hp : a.About p) : p = Callback.path e.1 := by
  obtain ⟨c, r⟩ := e
  cases c with
  | open' q pFi =>
    simp only [storeAct] at ha
    split at ha
    · obtain ⟨fh, -, rfl⟩ := Option.map_eq_some_iff.mp ha
      exact hp.symm
    · cases ha
  | write | flush | fsync | mknod =>
    simp only [storeAct] at ha
    split at ha
    · cases ha
      exact hp.symm
    · cases ha
  | release => cases ha; exact hp.elim
  | _ => cases ha

/-- A call about another path. -/
structure Caller.SameAt (p : Str) (s t : Caller) : Prop where
  stored : t.store.stored p = s.store.stored p
  unsaved : t.store.unsaved p = s.store.unsaved p
  handles : ∀ fh, t.store.handles fh = some p → s.store.handles fh = some p
  readSince : p ∈ t.readSince ↔ p ∈ s.readSince

theorem Caller.sameAt_after (s : Caller) {e : Event Calls} (hp : p ≠ Callback.path e.1) :
    s.SameAt p (s.after e) := by
  obtain ⟨c, r⟩ := e
  have hreads : ¬ c.Reads p := by
    cases c with
    | read => exact fun h => hp h.symm
    | _ => exact id
  have hwrites : ¬ c.Writes p := by
    cases c with
    | write => exact fun h => hp h.symm
    | _ => exact id
  have hread : p ∈ (s.after ⟨c, r⟩).readSince ↔ p ∈ s.readSince := by
    show c.Reads p ∨ p ∈ s.readSince ∧ ¬ c.Writes p ↔ p ∈ s.readSince
    simp only [hreads, hwrites, false_or, not_false_eq_true, and_true]
  rw [after] at hread ⊢
  dsimp only at hread ⊢
  split
  · exact ⟨rfl, rfl, fun _ => id, hread⟩
  · rename_i a ha
    obtain ⟨hstored, hunsaved, hhandles⟩ :=
      Store.apply_other (fun habout => hp (about_path ha habout)) s.store
    exact ⟨hstored, hunsaved, hhandles, hread⟩

theorem Caller.SameAt.content (h : s.SameAt p t) : t.store.content p = s.store.content p := by
  rw [Store.content, Store.content, h.stored, h.unsaved]

/-- A path stays as it was when the call is about another one. -/
theorem Holds.congr (h : Holds g p x s.store (p ∈ s.readSince)) (hsame : s.SameAt p t)
    (hentry : y.status.entry p = x.status.entry p)
    (hcopy : y.disk.content (g.localPath p) = x.disk.content (g.localPath p))
    (hhost : y.disk.content p = x.disk.content p) (hremote : y.disk.remote p = x.disk.remote p) :
    Holds g p y t.store (p ∈ t.readSince) where
  stored := by rw [hremote, hsame.stored]; exact h.stored
  copy := by rw [hcopy, hsame.content]; exact h.copy
  opened fh hfh := by rw [hcopy]; exact h.opened fh (hsame.handles fh hfh)
  unsaved hne := by
    rw [hsame.unsaved] at hne
    rw [hentry, hsame.readSince]
    exact h.unsaved hne
  pending hp := by
    rw [hentry] at hp
    rw [hcopy]
    exact h.pending hp
  notRenamed := by rw [hentry]; exact h.notRenamed
  notTruncated := by rw [hentry]; exact h.notTruncated
  host := hhost.trans h.host

/-- A call keeps the relation when it does for its own path and changes nothing else. -/
theorem Stands.update (hS : Apart g S) (hs : s.paths ⊆ S) (h : Stands g s x) {e : Event Calls}
    (hp : Callback.path e.1 ∈ S) (honly : x.OnlyAt g (Callback.path e.1) y)
    (hhandle : ∀ fh p, (s.after e).store.handles fh = some p →
      y.disk.handle fh = some (g.localPath p))
    (hholds : Callback.path e.1 ∈ (s.after e).paths → Holds g (Callback.path e.1) y
      (s.after e).store (Callback.path e.1 ∈ (s.after e).readSince)) :
    Stands g (s.after e) y where
  handle := hhandle
  holds p hps := by
    by_cases hpath : p = Callback.path e.1
    · rw [hpath] at hps ⊢
      exact hholds hps
    · have hpS := hs hps.1
      refine (h.holds p hps.1).congr (s.sameAt_after hpath) (honly.entry p hpath)
        (honly.content _ ?_) (honly.content _ ?_) (honly.remote p hpath)
      · exact fun heq => hpath (hS.injOn p hpS _ hp heq)
      · exact fun heq => hS.notLocal _ hp p hpS heq.symm

end AdbncFs
