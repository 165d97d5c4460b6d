import Mathlib.Logic.Function.Basic
import AdbncFs.Text.Str

/-!
# The attribute cache

`FileCache` of `fileinfoCache.cpp`: for each path one entry with the output of the stat
command, the output of the readlink command, and one time stamp for both. The two outputs
are put and read by the same code, so there is one operation with the kind of the output as
a parameter, and each function of the source is that operation at its kind.
-/

namespace AdbncFs

open Text Function

/-- The lines a command wrote. -/
abbrev Output := List Str

/-- Keep cache entries valid for 120 seconds. -/
def iFileDataCacheSecondsValid : Int := 120

/-- Which of the two outputs of an entry is meant. -/
inductive Kind
  | stat
  | readLink
  deriving DecidableEq

/-- The output whose time stamp a put refreshes as well. -/
def Kind.other : Kind → Kind
  | stat => readLink
  | readLink => stat

namespace FileCache

/-- An entry of the map. An output that was not put yet is a null pointer in the source. -/
structure Entry where
  m_Timestamp : Int
  m_pStatOutput : Option Output
  m_pReadLinkOutput : Option Output
  deriving DecidableEq

/-- The default constructor, at the time `now`. -/
def Entry.new (now : Int) : Entry := ⟨now, none, none⟩

/-- The output of this kind, if there is one. -/
def Entry.output (entry : Entry) : Kind → Option Output
  | .stat => entry.m_pStatOutput
  | .readLink => entry.m_pReadLinkOutput

/-- `statOutput(output)` and `readLinkOutput(output)`. The time stamp stays. -/
def Entry.setOutput (entry : Entry) (output : Output) : Kind → Entry
  | .stat => { entry with m_pStatOutput := some output }
  | .readLink => { entry with m_pReadLinkOutput := some output }

/-- `timeStamp(time)`: both outputs are as old as that from now on. -/
def Entry.timeStamp (entry : Entry) (time : Int) : Entry := { entry with m_Timestamp := time }

@[simp] theorem output_setOutput (entry : Entry) (o : Output) (k l : Kind) :
    (entry.setOutput o k).output l = if l = k then some o else entry.output l := by
  cases k <;> cases l <;> rfl

@[simp] theorem setOutput_timestamp (entry : Entry) (o : Output) (k : Kind) :
    (entry.setOutput o k).m_Timestamp = entry.m_Timestamp := by
  cases k <;> rfl

@[simp] theorem output_new (now : Int) (k : Kind) : (Entry.new now).output k = none := by
  cases k <;> rfl

@[simp] theorem output_timeStamp (entry : Entry) (t : Int) (k : Kind) :
    (entry.timeStamp t).output k = entry.output k := by
  cases k <;> rfl

end FileCache

/-- The map `m_Entries`. -/
abbrev FileCache := Str → Option FileCache.Entry

namespace FileCache

/-- The cache when the program starts. -/
def empty : FileCache := fun _ => none

/-- An entry is used for less than `iFileDataCacheSecondsValid` seconds. -/
def isValid (entry : Entry) (now : Int) : Bool :=
  entry.m_Timestamp + iFileDataCacheSecondsValid > now

/-- `putStat` and `putReadLink`: a new entry has the time of its construction, an old one
gets the current time. -/
def put (k : Kind) (fileCache : FileCache) (pcPath : Str) (output : Output) (now : Int) :
    FileCache :=
  match fileCache pcPath with
  | none => update fileCache pcPath (some ((Entry.new now).setOutput output k))
  | some it => update fileCache pcPath (some ((it.setOutput output k).timeStamp now))

/-- `getStat` and `getReadLink`. -/
def get (k : Kind) (fileCache : FileCache) (pcPath : Str) (now : Int) : Option Output :=
  match fileCache pcPath with
  | none => none
  | some it => if isValid it now then it.output k else none

/-- The output of `stat -t`, of `doStat`. -/
def putStat := put .stat

/-- The output of `readlink -f`, of `adbnc_readlink`. -/
def putReadLink := put .readLink

/-- What `doStat` asks for before it asks the device. -/
def getStat := get .stat

/-- What `adbnc_readlink` asks for before it asks the device. -/
def getReadLink := get .readLink

/-- Both outputs are forgotten. -/
def invalidate (fileCache : FileCache) (pcPath : Str) : FileCache := update fileCache pcPath none

/-! ## What the operations do to an entry -/

theorem put_self (k : Kind) (c : FileCache) (p : Str) (o : Output) (now : Int) :
    ∃ it, put k c p o now p = some it ∧ it.m_Timestamp = now ∧ it.output k = some o ∧
      it.output k.other = (c p).bind (·.output k.other) := by
  unfold put
  have hne : k.other ≠ k := by cases k <;> decide
  cases h : c p with
  | none =>
    refine ⟨_, update_self p _ c, ?_, ?_, ?_⟩
    · simp [Entry.new]
    · simp
    · simp [hne]
  | some it =>
    refine ⟨_, update_self p _ c, rfl, ?_, ?_⟩
    · simp
    · simp [hne]

theorem put_of_ne {k : Kind} {c : FileCache} {p q : Str} {o : Output} {now : Int} (h : q ≠ p) :
    put k c p o now q = c q := by
  unfold put
  cases c p <;> exact update_of_ne h _ _

@[simp] theorem invalidate_self (c : FileCache) (p : Str) : c.invalidate p p = none :=
  update_self p _ c

theorem invalidate_of_ne {c : FileCache} {p q : Str} (h : q ≠ p) : c.invalidate p q = c q :=
  update_of_ne h _ _

theorem get_eq_some {k : Kind} {c : FileCache} {p : Str} {now : Int} {o : Output} :
    c.get k p now = some o ↔
      ∃ it, c p = some it ∧ now < it.m_Timestamp + iFileDataCacheSecondsValid ∧
        it.output k = some o := by
  unfold get isValid
  cases c p with
  | none => simp
  | some it => simp

theorem get_congr {k : Kind} {c c' : FileCache} {p : Str} (h : c p = c' p) (now : Int) :
    c.get k p now = c'.get k p now := by
  simp only [get, h]

/-- A value that is read now was in the cache before, or was put. -/
theorem get_put_eq_some {k : Kind} {c : FileCache} {p q : Str} {o v : Output} {t now : Int}
    (h : (put k c p o t).get k q now = some v) :
    q = p ∧ v = o ∨ q ≠ p ∧ c.get k q now = some v := by
  by_cases hq : q = p
  · subst hq
    obtain ⟨it, hit, -, ho, -⟩ := put_self k c q o t
    obtain ⟨it', hit', -, hv⟩ := get_eq_some.mp h
    rw [hit] at hit'
    cases hit'
    rw [ho] at hv
    exact Or.inl ⟨rfl, (Option.some.inj hv).symm⟩
  · exact Or.inr ⟨hq, (get_congr (put_of_ne hq) now).symm.trans h⟩

/-! ## The kept outputs -/

/-- The output kept for a path, valid or not. -/
def kept (c : FileCache) (k : Kind) (pcPath : Str) : Option Output := (c pcPath).bind (·.output k)

theorem kept_of_get {k : Kind} {c : FileCache} {p : Str} {now : Int} {o : Output}
    (h : c.get k p now = some o) : c.kept k p = some o := by
  obtain ⟨it, hit, -, ho⟩ := get_eq_some.mp h
  rw [kept, hit]
  exact ho

theorem kept_put (k l : Kind) (c : FileCache) (p q : Str) (o : Output) (now : Int) :
    (put k c p o now).kept l q = if q = p ∧ l = k then some o else c.kept l q := by
  by_cases hq : q = p
  · subst hq
    obtain ⟨it, hit, -, ho, hother⟩ := put_self k c q o now
    rw [kept, hit, Option.bind_some]
    by_cases hl : l = k
    · rw [if_pos ⟨rfl, hl⟩, hl, ho]
    · have hlk : l = k.other := by
        cases l <;> cases k <;> first | rfl | exact absurd rfl hl
      rw [if_neg fun h => hl h.2, hlk]
      exact hother
  · rw [if_neg fun h => hq h.1, kept, put_of_ne hq]
    rfl

theorem kept_invalidate (k : Kind) (c : FileCache) (p q : Str) :
    (c.invalidate p).kept k q = if q = p then none else c.kept k q := by
  by_cases hq : q = p
  · subst hq
    simp [kept]
  · rw [if_neg hq, kept, invalidate_of_ne hq]
    rfl

end FileCache

end AdbncFs
