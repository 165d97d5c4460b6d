import AdbncFs.Cache.FileCache
import AdbncFs.Memory.Ownership

/-!
# The entries of the cache in memory

The class `FileCache::Entry` with its two pointers: constructors, assignment, destructor and
setters, over a heap with any allocator. `uses_as_values` says that it is a class of values.
Whatever is done with any number of such objects, in any order, nothing is deleted twice, read
after it was deleted or left behind, and each object has the outputs that it would have if the
entries had them as members. One use is left out of this, and only this one: a setter that is
given a reference to the output that it replaces.
-/

namespace AdbncFs

open Text Function Ownership

namespace FileCache.Raw

/-! ## The source -/

structure Entry where
  m_Timestamp : Int
  m_pStatOutput : Option Nat
  m_pReadLinkOutput : Option Nat

namespace Entry

/-- The default constructor, at the time `now`. -/
def new (now : Int) : Entry := ⟨now, none, none⟩

def pointer (entry : Entry) : Kind → Option Nat
  | .stat => entry.m_pStatOutput
  | .readLink => entry.m_pReadLinkOutput

def setPointer (entry : Entry) (p : Option Nat) : Kind → Entry
  | .stat => { entry with m_pStatOutput := p }
  | .readLink => { entry with m_pReadLinkOutput := p }

def timeStamp (entry : Entry) (time : Int) : Entry := { entry with m_Timestamp := time }

/-- The entry as a value, with what its pointers point to. -/
def value (h : Heap Output) (entry : Entry) : FileCache.Entry where
  m_Timestamp := entry.m_Timestamp
  m_pStatOutput := entry.m_pStatOutput.bind h.lookup
  m_pReadLinkOutput := entry.m_pReadLinkOutput.bind h.lookup

/-- `delete` of both members. -/
def deleteBoth (entry : Entry) (h : Heap Output) : Option (Heap Output) :=
  (h.delete entry.m_pStatOutput).bind (·.delete entry.m_pReadLinkOutput)

/-- Copies of what both members of `orig` point to. -/
def copyBoth (A : Allocator Output) (orig : Entry) (h : Heap Output) :
    Option (Entry × Heap Output) :=
  (h.copy A orig.m_pStatOutput).bind fun r =>
    (r.2.copy A orig.m_pReadLinkOutput).map fun s => (⟨orig.m_Timestamp, r.1, s.1⟩, s.2)

end Entry

/-- Objects of the class by their names, and the heap. -/
structure Memory (ι : Type) where
  objects : ι → Option Entry
  heap : Heap Output

variable {ι : Type}

namespace Memory

def empty : Memory ι := ⟨fun _ => none, ∅⟩

def values (m : Memory ι) (o : ι) : Option FileCache.Entry := (m.objects o).map (·.value m.heap)

/-- The two members of each object. -/
def own (objects : ι → Option Entry) (s : ι × Kind) : Option Nat :=
  (objects s.1).bind (·.pointer s.2)

/-- The members own the heap. -/
def Sound (m : Memory ι) : Prop := Owns (own m.objects) m.heap

variable {m : Memory ι} {o : ι} {it : Entry}

theorem member_ne {s : ι × Kind} (hs : s.1 ≠ o) (k : Kind) : s ≠ (o, k) :=
  fun heq => hs (congrArg Prod.fst heq)

theorem held_eq (hit : m.objects o = some it) (k : Kind) :
    held (own m.objects) m.heap (o, k) = (it.value m.heap).output k := by
  unfold held own
  rw [hit]
  cases k <;> rfl

theorem values_of_some (hit : m.objects o = some it) : m.values o = some (it.value m.heap) := by
  rw [values, hit, Option.map_some]

theorem values_of_none (ho : m.objects o = none) : m.values o = none := by
  rw [values, ho, Option.map_none]

theorem output_values (s : ι × Kind) :
    (m.values s.1).bind (·.output s.2) = held (own m.objects) m.heap s := by
  cases ho : m.objects s.1 with
  | none =>
    rw [values_of_none ho, held, own, ho]
    rfl
  | some it => rw [values_of_some ho, Option.bind_some, ← held_eq ho]

end Memory

theorem Entry.value_eq {it : Entry} {h : Heap Output} {value : FileCache.Entry}
    (ht : it.m_Timestamp = value.m_Timestamp)
    (hk : ∀ k, (it.pointer k).bind h.lookup = value.output k) : it.value h = value := by
  obtain ⟨t, stat, readLink⟩ := value
  rw [Entry.value, FileCache.Entry.mk.injEq]
  exact ⟨ht, hk .stat, hk .readLink⟩

/-! ## What can be done with the objects -/

inductive Use (ι : Type)
  /-- `Entry()`, which reads the clock -/
  | construct (o : ι) (now : Int)
  /-- `Entry(const Entry& orig)` -/
  | copy (o orig : ι)
  /-- `operator=` -/
  | assign (o orig : ι)
  /-- `statOutput(output)`, `readLinkOutput(output)` -/
  | setOutput (o : ι) (k : Kind) (output : Output)
  /-- the same with a reference to the output of a member -/
  | setOutputOf (o : ι) (k : Kind) (source : ι × Kind)
  | timeStamp (o : ι) (time : Int)
  /-- `~Entry()` -/
  | destroy (o : ι)

variable [DecidableEq ι] (A : Allocator Output)

/-- One use, with the pointers. It is undefined for an object that is not there, for one that
is constructed again, and where the heap is used in an undefined way. -/
def Use.exec (m : Memory ι) : Use ι → Option (Memory ι)
  | construct o now =>
    match m.objects o with
    | none => some { m with objects := update m.objects o (some (Entry.new now)) }
    | some _ => none
  | copy o orig =>
    match m.objects o, m.objects orig with
    | none, some it => (it.copyBoth A m.heap).map fun r => ⟨update m.objects o (some r.1), r.2⟩
    | _, _ => none
  | assign o orig =>
    match m.objects o, m.objects orig with
    | some it, some right =>
      -- protect against invalid self-assignment
      if o = orig then some m
      else (it.deleteBoth m.heap).bind fun h =>
        (right.copyBoth A h).map fun r => ⟨update m.objects o (some r.1), r.2⟩
    | _, _ => none
  | setOutput o k output =>
    (m.objects o).bind fun it => (m.heap.delete (it.pointer k)).map fun h =>
      ⟨update m.objects o (some (it.setPointer (some (h.new A output).1) k)), (h.new A output).2⟩
  | setOutputOf o k source =>
    -- what is referred to is copied after the delete
    (m.objects o).bind fun it => (Memory.own m.objects source).bind fun ptr =>
      (m.heap.delete (it.pointer k)).bind fun h => (h.lookup ptr).map fun output =>
        ⟨update m.objects o (some (it.setPointer (some (h.new A output).1) k)),
          (h.new A output).2⟩
  | timeStamp o time =>
    (m.objects o).map fun it => { m with objects := update m.objects o (some (it.timeStamp time)) }
  | destroy o =>
    (m.objects o).bind fun it => (it.deleteBoth m.heap).map fun h => ⟨update m.objects o none, h⟩

/-- The same use of entries that have their outputs as members. Even so an output is not to be
replaced by a reference to it, for the pointers have it deleted first. -/
def Use.apply (values : ι → Option FileCache.Entry) : Use ι → Option (ι → Option FileCache.Entry)
  | construct o now =>
    match values o with
    | none => some (update values o (some (FileCache.Entry.new now)))
    | some _ => none
  | copy o orig =>
    match values o, values orig with
    | none, some it => some (update values o (some it))
    | _, _ => none
  | assign o orig =>
    match values o, values orig with
    | some _, some right => some (update values o (some right))
    | _, _ => none
  | setOutput o k output => (values o).map fun it => update values o (some (it.setOutput output k))
  | setOutputOf o k source =>
    if source = (o, k) then none
    else (values o).bind fun it => ((values source.1).bind (·.output source.2)).map fun output =>
      update values o (some (it.setOutput output k))
  | timeStamp o time => (values o).map fun it => update values o (some (it.timeStamp time))
  | destroy o => (values o).map fun _ => update values o none

/-- A run of uses with the pointers, and the same one of the values. -/
def execAll (m : Memory ι) (us : List (Use ι)) : Option (Memory ι) :=
  us.foldlM (fun m u => u.exec A m) m

def applyAll (values : ι → Option FileCache.Entry) (us : List (Use ι)) :
    Option (ι → Option FileCache.Entry) :=
  us.foldlM (fun values u => u.apply values) values

/-! ## The owners after a change -/

namespace Memory

variable {objects : ι → Option Entry} {h h' : Heap Output} {o o' : ι} {it : Entry}

omit [DecidableEq ι] in
theorem own_of_some (ho : objects o = some it) (k : Kind) : own objects (o, k) = it.pointer k := by
  rw [own, ho, Option.bind_some]

theorem own_update (o : ι) (x : Option Entry) (s : ι × Kind) :
    own (update objects o x) s = if s.1 = o then x.bind (·.pointer s.2) else own objects s := by
  unfold own
  by_cases hs : s.1 = o
  · rw [if_pos hs, hs, update_self]
  · rw [if_neg hs, update_of_ne hs]

/-- An object whose pointers are those it had, or none where there was no object. -/
theorem own_update_same {x : Option Entry}
    (h : ∀ k, x.bind (·.pointer k) = (objects o).bind (·.pointer k)) :
    own (update objects o x) = own objects := by
  funext s
  rw [own_update]
  by_cases hs : s.1 = o
  · rw [if_pos hs, h, own, hs]
  · rw [if_neg hs]

theorem own_setPointer (ho : objects o = some it) (p : Option Nat) (k : Kind) :
    own (update objects o (some (it.setPointer p k))) = update (own objects) (o, k) p := by
  funext ⟨o', l⟩
  rw [own_update]
  by_cases hs : o' = o
  · subst hs
    rw [if_pos rfl]
    by_cases hl : l = k
    · subst hl
      rw [update_self]
      cases l <;> rfl
    · have hne : (o', l) ≠ (o', k) := fun heq => hl (congrArg Prod.snd heq)
      rw [update_of_ne hne]
      show (it.setPointer p k).pointer l = (objects o').bind (·.pointer l)
      rw [ho]
      cases l <;> cases k <;> first | rfl | exact absurd rfl hl
  · have hne : (o', l) ≠ (o, k) := fun heq => hs (congrArg Prod.fst heq)
    rw [if_neg hs, update_of_ne hne]

theorem own_members (o : ι) (x : Option Entry) :
    own (update objects o x) =
      update (update (own objects) (o, .stat) (x.bind (·.pointer .stat))) (o, .readLink)
        (x.bind (·.pointer .readLink)) := by
  funext ⟨o', l⟩
  rw [own_update]
  by_cases hs : o' = o
  · subst hs
    rw [if_pos rfl]
    cases l with
    | stat =>
      have hne : (o', Kind.stat) ≠ (o', Kind.readLink) := by simp
      rw [update_of_ne hne, update_self]
    | readLink => rw [update_self]
  · have hne : ∀ k, (o', l) ≠ (o, k) := fun k heq => hs (congrArg Prod.fst heq)
    rw [if_neg hs, update_of_ne (hne _), update_of_ne (hne _)]

/-! ## What each use does to the members -/

theorem deleteBoth_owns (hown : Owns (own objects) h) (ho : objects o = some it) :
    ∃ h', it.deleteBoth h = some h' ∧ Owns (own (update objects o none)) h' ∧
      ∀ s : ι × Kind, s.1 ≠ o →
        held (own (update objects o none)) h' s = held (own objects) h s := by
  obtain ⟨h₁, hdelete₁, hown₁, hheld₁⟩ := hown.delete (o, .stat)
  obtain ⟨h₂, hdelete₂, hown₂, hheld₂⟩ := hown₁.delete (o, .readLink)
  have hne : (o, Kind.readLink) ≠ (o, Kind.stat) := by simp
  rw [update_of_ne hne, own_of_some ho] at hdelete₂
  rw [own_of_some ho] at hdelete₁
  refine ⟨h₂, ?_, ?_, fun s hs => ?_⟩
  · show (h.delete (it.pointer .stat)).bind _ = _
    rw [hdelete₁]
    exact hdelete₂
  · rw [own_members]
    exact hown₂
  · rw [own_members]
    refine (congrFun hheld₂ s).trans ?_
    rw [update_of_ne (member_ne hs _), hheld₁, update_of_ne (member_ne hs _)]

theorem copyBoth_owns (A : Allocator Output) (hown : Owns (own objects) h)
    (ho : objects o = none) (horig : objects o' = some it) :
    ∃ r, it.copyBoth A h = some r ∧ r.1.m_Timestamp = it.m_Timestamp ∧
      Owns (own (update objects o (some r.1))) r.2 ∧
      (∀ k, held (own (update objects o (some r.1))) r.2 (o, k) =
        held (own objects) h (o', k)) ∧
      ∀ s : ι × Kind, s.1 ≠ o →
        held (own (update objects o (some r.1))) r.2 s = held (own objects) h s := by
  have hnull : ∀ k, own objects (o, k) = none := by
    intro k
    show (objects o).bind _ = _
    rw [ho, Option.bind_none]
  have hoo' : o' ≠ o := by
    rintro rfl
    rw [ho] at horig
    cases horig
  have hne : (o, Kind.readLink) ≠ (o, Kind.stat) := by simp
  obtain ⟨r₁, hcopy₁, hown₁, hheld₁⟩ := hown.copy (hnull .stat) A (o', .stat)
  have hnull₁ : update (own objects) (o, .stat) r₁.1 (o, .readLink) = none := by
    rw [update_of_ne hne]
    exact hnull .readLink
  obtain ⟨r₂, hcopy₂, hown₂, hheld₂⟩ := hown₁.copy hnull₁ A (o', .readLink)
  rw [update_of_ne (member_ne hoo' _), own_of_some horig] at hcopy₂
  rw [own_of_some horig] at hcopy₁
  refine ⟨(⟨it.m_Timestamp, r₁.1, r₂.1⟩, r₂.2), ?_, rfl, ?_, fun k => ?_, fun s hs => ?_⟩
  · show (h.copy A (it.pointer .stat)).bind _ = _
    rw [hcopy₁, Option.bind_some]
    show (r₁.2.copy A (it.pointer .readLink)).map _ = _
    rw [hcopy₂, Option.map_some]
  · rw [own_members]
    exact hown₂
  · rw [own_members]
    refine (congrFun hheld₂ (o, k)).trans ?_
    cases k with
    | stat => rw [update_of_ne hne.symm, hheld₁, update_self]
    | readLink => rw [update_self, hheld₁, update_of_ne (member_ne hoo' _)]
  · rw [own_members]
    refine (congrFun hheld₂ s).trans ?_
    rw [update_of_ne (member_ne hs _), hheld₁, update_of_ne (member_ne hs _)]

end Memory

open Memory

variable {m m' : Memory ι} {o orig : ι} {it right : Entry}

/-- The values when the members of one object have changed. -/
theorem Memory.values_update {x : Option Entry} {y : Option FileCache.Entry}
    (hobjects : m'.objects = update m.objects o x)
    (hother : ∀ s : ι × Kind, s.1 ≠ o →
      held (own m'.objects) m'.heap s = held (own m.objects) m.heap s)
    (hself : x.map (·.value m'.heap) = y) : m'.values = update m.values o y := by
  funext o'
  by_cases ho : o' = o
  · subst ho
    rw [update_self, values, hobjects, update_self]
    exact hself
  · have hsame : m'.objects o' = m.objects o' := by rw [hobjects, update_of_ne ho]
    rw [update_of_ne ho, values, values, hsame]
    cases hit : m.objects o' with
    | none => rfl
    | some it =>
      have hk : ∀ k, (it.pointer k).bind m'.heap.lookup = (it.pointer k).bind m.heap.lookup := by
        intro k
        have h := hother (o', k) ho
        unfold held own at h
        rw [hsame, hit] at h
        exact h
      rw [Option.map_some, Option.map_some, Option.some.injEq]
      exact Entry.value_eq rfl fun k => (hk k).trans (by cases k <;> rfl)

/-- An object whose members are set to these values. -/
theorem Memory.values_set {value : FileCache.Entry}
    (hobjects : m'.objects = update m.objects o (some it))
    (ht : it.m_Timestamp = value.m_Timestamp)
    (hself : ∀ k, held (own m'.objects) m'.heap (o, k) = value.output k)
    (hother : ∀ s : ι × Kind, s.1 ≠ o →
      held (own m'.objects) m'.heap s = held (own m.objects) m.heap s) :
    m'.values = update m.values o (some value) := by
  apply values_update hobjects hother
  rw [Option.map_some, Option.some.injEq]
  refine Entry.value_eq ht fun k => ?_
  rw [← hself k]
  unfold held own
  rw [hobjects, update_self]
  rfl

section

variable (hm : m.Sound)
include hm

theorem exec_construct (ho : m.objects o = none) (now : Int) :
    ∃ m', (Use.construct o now).exec A m = some m' ∧ m'.Sound ∧
      m'.values = update m.values o (some (FileCache.Entry.new now)) := by
  have hown : own (update m.objects o (some (Entry.new now))) = own m.objects := by
    refine own_update_same fun k => ?_
    rw [ho]
    cases k <;> rfl
  refine ⟨{ m with objects := update m.objects o (some (Entry.new now)) }, ?_, ?_, ?_⟩
  · rw [Use.exec, ho]
  · show Owns (own _) m.heap
    rw [hown]
    exact hm
  · apply values_set rfl rfl
    · intro k
      show held (own _) m.heap _ = _
      rw [hown, held, own, ho]
      cases k <;> rfl
    · intro s _
      show held (own _) m.heap _ = _
      rw [hown]

theorem exec_copy (ho : m.objects o = none) (horig : m.objects orig = some right) :
    ∃ m', (Use.copy o orig).exec A m = some m' ∧ m'.Sound ∧
      m'.values = update m.values o (some (right.value m.heap)) := by
  obtain ⟨r, hcopy, ht, hown, hself, hother⟩ := copyBoth_owns A hm ho horig
  refine ⟨⟨update m.objects o (some r.1), r.2⟩, ?_, hown, ?_⟩
  · rw [Use.exec, ho, horig]
    show (right.copyBoth A m.heap).map _ = _
    rw [hcopy, Option.map_some]
  · exact values_set rfl ht (fun k => (hself k).trans (held_eq horig k)) hother

theorem exec_assign (ho : m.objects o = some it) (horig : m.objects orig = some right) :
    ∃ m', (Use.assign o orig).exec A m = some m' ∧ m'.Sound ∧
      m'.values = update m.values o (some (right.value m.heap)) := by
  by_cases hself : o = orig
  · subst hself
    refine ⟨m, ?_, hm, ?_⟩
    · rw [Use.exec, horig]
      exact if_pos rfl
    · rw [← values_of_some horig, update_eq_self]
  · obtain ⟨h, hdelete, hown, hheld⟩ := deleteBoth_owns hm ho
    have horig' : update m.objects o none orig = some right := by
      rw [update_of_ne (Ne.symm hself), horig]
    obtain ⟨r, hcopy, ht, hown', hself', hother⟩ :=
      copyBoth_owns A hown (update_self o none m.objects) horig'
    rw [update_idem] at hown' hself' hother
    refine ⟨⟨update m.objects o (some r.1), r.2⟩, ?_, hown', ?_⟩
    · rw [Use.exec, ho, horig]
      refine (if_neg hself).trans ?_
      rw [hdelete, Option.bind_some, hcopy, Option.map_some]
    · apply values_set rfl ht
      · intro k
        exact (hself' k).trans ((hheld _ (Ne.symm hself)).trans (held_eq horig k))
      · exact fun s hs => (hother s hs).trans (hheld s hs)

theorem exec_setOutput (ho : m.objects o = some it) (k : Kind) (output : Output) :
    ∃ m', (Use.setOutput o k output).exec A m = some m' ∧ m'.Sound ∧
      m'.values = update m.values o (some ((it.value m.heap).setOutput output k)) := by
  obtain ⟨h, hdelete, hown, hheld⟩ := hm.delete (o, k)
  have hnull : update (own m.objects) (o, k) none (o, k) = none := update_self _ _ _
  obtain ⟨hown', hheld'⟩ := hown.new hnull A output
  rw [update_idem, hheld, update_idem] at hheld'
  rw [update_idem] at hown'
  rw [own_of_some ho] at hdelete
  have hset := own_setPointer ho (some (h.new A output).1) k
  refine ⟨⟨update m.objects o (some (it.setPointer (some (h.new A output).1) k)),
    (h.new A output).2⟩, ?_, ?_, ?_⟩
  · rw [Use.exec, ho, Option.bind_some, hdelete, Option.map_some]
  · show Owns (own _) _
    rw [hset]
    exact hown'
  · apply values_set rfl
    · cases k <;> rfl
    · intro l
      show held (own _) _ _ = _
      rw [hset, hheld', output_setOutput]
      by_cases hl : l = k
      · rw [hl, update_self, if_pos rfl]
      · have hne : (o, l) ≠ (o, k) := fun heq => hl (congrArg Prod.snd heq)
        rw [update_of_ne hne, if_neg hl, held_eq ho]
    · intro s hs
      show held (own _) _ _ = _
      rw [hset, hheld', update_of_ne (member_ne hs k)]

/-- A reference to another output is as good as its value. -/
theorem exec_setOutputOf (ho : m.objects o = some it) {k : Kind} {source : ι × Kind}
    (hsource : source ≠ (o, k)) :
    (Use.setOutputOf o k source).exec A m =
      (held (own m.objects) m.heap source).bind fun output =>
        (Use.setOutput o k output).exec A m := by
  obtain ⟨h, hdelete, -, hheld⟩ := hm.delete (o, k)
  have hkept := congrFun hheld source
  rw [held, update_of_ne hsource, update_of_ne hsource] at hkept
  rw [own_of_some ho] at hdelete
  rw [← hkept]
  simp only [Use.exec, ho, Option.bind_some, hdelete, Option.map_some]
  cases own m.objects source with
  | none => rfl
  | some ptr =>
    rw [Option.bind_some, Option.bind_some]
    cases h.lookup ptr <;> rfl

omit hm in
/-- A reference to the output that is replaced is used when that has been deleted. -/
theorem exec_setOutputOf_self (ho : m.objects o = some it) (k : Kind) :
    (Use.setOutputOf o k (o, k)).exec A m = none := by
  simp only [Use.exec, ho, Option.bind_some, own_of_some ho]
  cases hpointer : it.pointer k with
  | none => rfl
  | some ptr =>
    rw [Option.bind_some]
    cases hdelete : m.heap.delete (some ptr) with
    | none => rfl
    | some h =>
      have hgone := not_mem_of_delete rfl hdelete
      rw [Option.bind_some, AList.lookup_eq_none.mpr hgone]
      rfl

theorem exec_timeStamp (ho : m.objects o = some it) (time : Int) :
    ∃ m', (Use.timeStamp o time).exec A m = some m' ∧ m'.Sound ∧
      m'.values = update m.values o (some ((it.value m.heap).timeStamp time)) := by
  have hown : own (update m.objects o (some (it.timeStamp time))) = own m.objects := by
    refine own_update_same fun k => ?_
    rw [ho]
    cases k <;> rfl
  refine ⟨{ m with objects := update m.objects o (some (it.timeStamp time)) }, ?_, ?_, ?_⟩
  · rw [Use.exec, ho, Option.map_some]
  · show Owns (own _) m.heap
    rw [hown]
    exact hm
  · apply values_set rfl rfl
    · intro k
      show held (own _) m.heap _ = _
      rw [hown, held_eq ho, output_timeStamp]
    · intro s _
      show held (own _) m.heap _ = _
      rw [hown]

theorem exec_destroy (ho : m.objects o = some it) :
    ∃ m', (Use.destroy o).exec A m = some m' ∧ m'.Sound ∧
      m'.values = update m.values o none := by
  obtain ⟨h, hdelete, hown, hheld⟩ := deleteBoth_owns hm ho
  refine ⟨⟨update m.objects o none, h⟩, ?_, hown, values_update rfl hheld rfl⟩
  rw [Use.exec, ho, Option.bind_some, hdelete, Option.map_some]

end

/-! ## Runs -/

omit [DecidableEq ι] in
theorem spec_of_done {r : Option (Memory ι)} {values : ι → Option FileCache.Entry}
    (h : ∃ m', r = some m' ∧ m'.Sound ∧ m'.values = values) :
    r.map Memory.values = some values ∧ ∀ m', r = some m' → m'.Sound := by
  obtain ⟨m', rfl, hsound, rfl⟩ := h
  refine ⟨rfl, ?_⟩
  rintro m'' ⟨⟩
  exact hsound

omit [DecidableEq ι] in
theorem spec_of_none {r : Option (Memory ι)} (h : r = none) :
    r.map Memory.values = none ∧ ∀ m', r = some m' → m'.Sound := by
  subst h
  exact ⟨rfl, fun m' h => by cases h⟩

/-- One use does to the values what it should, where it is defined for them. -/
theorem exec_spec (hm : m.Sound) (u : Use ι) :
    (u.exec A m).map values = u.apply m.values ∧ ∀ m', u.exec A m = some m' → m'.Sound := by
  cases u with
  | construct o now =>
    cases ho : m.objects o with
    | none =>
      rw [Use.apply, values_of_none ho]
      exact spec_of_done (exec_construct A hm ho now)
    | some it =>
      rw [Use.apply, values_of_some ho]
      apply spec_of_none
      rw [Use.exec, ho]
  | copy o orig =>
    cases ho : m.objects o with
    | none =>
      cases horig : m.objects orig with
      | none =>
        rw [Use.apply, values_of_none ho, values_of_none horig]
        apply spec_of_none
        rw [Use.exec, ho, horig]
      | some right =>
        rw [Use.apply, values_of_none ho, values_of_some horig]
        exact spec_of_done (exec_copy A hm ho horig)
    | some it =>
      rw [Use.apply, values_of_some ho]
      apply spec_of_none
      rw [Use.exec, ho]
  | assign o orig =>
    cases ho : m.objects o with
    | none =>
      rw [Use.apply, values_of_none ho]
      apply spec_of_none
      rw [Use.exec, ho]
    | some it =>
      cases horig : m.objects orig with
      | none =>
        rw [Use.apply, values_of_some ho, values_of_none horig]
        apply spec_of_none
        rw [Use.exec, ho, horig]
      | some right =>
        rw [Use.apply, values_of_some ho, values_of_some horig]
        exact spec_of_done (exec_assign A hm ho horig)
  | setOutput o k output =>
    cases ho : m.objects o with
    | none =>
      rw [Use.apply, values_of_none ho]
      apply spec_of_none
      rw [Use.exec, ho, Option.bind_none]
    | some it =>
      rw [Use.apply, values_of_some ho]
      exact spec_of_done (exec_setOutput A hm ho k output)
  | setOutputOf o k source =>
    cases ho : m.objects o with
    | none =>
      rw [Use.apply, values_of_none ho, Option.bind_none, ite_self]
      apply spec_of_none
      rw [Use.exec, ho, Option.bind_none]
    | some it =>
      by_cases hsource : source = (o, k)
      · rw [Use.apply, if_pos hsource, hsource]
        exact spec_of_none (exec_setOutputOf_self A ho k)
      rw [Use.apply, if_neg hsource, values_of_some ho, Option.bind_some, output_values,
        exec_setOutputOf A hm ho hsource]
      cases held (own m.objects) m.heap source with
      | none => exact spec_of_none rfl
      | some output => exact spec_of_done (exec_setOutput A hm ho k output)
  | timeStamp o time =>
    cases ho : m.objects o with
    | none =>
      rw [Use.apply, values_of_none ho]
      apply spec_of_none
      rw [Use.exec, ho, Option.map_none]
    | some it =>
      rw [Use.apply, values_of_some ho]
      exact spec_of_done (exec_timeStamp A hm ho time)
  | destroy o =>
    cases ho : m.objects o with
    | none =>
      rw [Use.apply, values_of_none ho]
      apply spec_of_none
      rw [Use.exec, ho, Option.bind_none]
    | some it =>
      rw [Use.apply, values_of_some ho]
      exact spec_of_done (exec_destroy A hm ho)

theorem execAll_spec (hm : m.Sound) (us : List (Use ι)) :
    (execAll A m us).map values = applyAll m.values us ∧
      ∀ m', execAll A m us = some m' → m'.Sound := by
  induction us generalizing m with
  | nil =>
    refine ⟨rfl, ?_⟩
    rintro m' ⟨⟩
    exact hm
  | cons u us ih =>
    obtain ⟨hvalues, hsound⟩ := exec_spec A hm u
    unfold execAll applyAll at *
    rw [List.foldlM_cons, List.foldlM_cons, ← hvalues]
    cases hu : u.exec A m with
    | none => exact ⟨rfl, fun m' h => by cases h⟩
    | some m' => exact ih (hsound m' hu)

omit [DecidableEq ι] in
theorem sound_empty : (Memory.empty : Memory ι).Sound := owns_empty

/-- Whatever is done with objects of the class, the memory is used in a defined way, each
object has the outputs of a value, no output is shared, and no output is left behind. -/
theorem uses_as_values (us : List (Use ι)) :
    (execAll A Memory.empty us).map values = applyAll (fun _ => none) us ∧
      ∀ m, execAll A Memory.empty us = some m →
        m.Sound ∧ ((∀ o, m.objects o = none) → m.heap = ∅) := by
  obtain ⟨hvalues, hsound⟩ := execAll_spec A (sound_empty (ι := ι)) us
  refine ⟨hvalues, fun m hm => ⟨hsound m hm, fun hnone => ?_⟩⟩
  apply (hsound m hm).eq_empty
  intro s
  rw [own, hnone, Option.bind_none]

/-! ## How long an output stays -/

/-- The use gives the member another output, or takes its output away. -/
def Use.Changes (s : ι × Kind) : Use ι → Prop
  | .construct o _ | .copy o _ | .assign o _ | .destroy o => s.1 = o
  | .setOutput o k _ | .setOutputOf o k _ => s = (o, k)
  | .timeStamp _ _ => False

/-- The use deletes the output of the member, if it is not null. -/
def Use.Deletes (s : ι × Kind) : Use ι → Prop
  | .setOutput o k _ | .setOutputOf o k _ => s = (o, k)
  | .destroy o => s.1 = o
  | _ => False

variable {u : Use ι} {s : ι × Kind} {ptr : Nat}

theorem own_update_of_ne (hs : s.1 ≠ o) (x : Option Entry) :
    own (update m.objects o x) s = own m.objects s := by
  rw [own_update, if_neg hs]

/-- A member that is not changed keeps its pointer. -/
theorem own_exec (h : u.exec A m = some m') (hs : ¬ u.Changes s) :
    own m'.objects s = own m.objects s := by
  cases u with
  | construct o now =>
    rw [Use.exec] at h
    split at h
    · cases h
      exact own_update_of_ne hs _
    · cases h
  | copy o orig =>
    rw [Use.exec] at h
    split at h
    · obtain ⟨r, -, rfl⟩ := Option.map_eq_some_iff.mp h
      exact own_update_of_ne hs _
    · cases h
  | assign o orig =>
    rw [Use.exec] at h
    split at h
    · split at h
      · cases h
        rfl
      · obtain ⟨h₁, -, h⟩ := Option.bind_eq_some_iff.mp h
        obtain ⟨r, -, rfl⟩ := Option.map_eq_some_iff.mp h
        exact own_update_of_ne hs _
    · cases h
  | setOutput o k output =>
    obtain ⟨it, ho, h⟩ := Option.bind_eq_some_iff.mp h
    obtain ⟨h₁, -, rfl⟩ := Option.map_eq_some_iff.mp h
    show own (update m.objects o _) s = _
    rw [own_setPointer ho]
    exact update_of_ne hs _ _
  | setOutputOf o k source =>
    obtain ⟨it, ho, h⟩ := Option.bind_eq_some_iff.mp h
    obtain ⟨source, -, h⟩ := Option.bind_eq_some_iff.mp h
    obtain ⟨h₁, -, h⟩ := Option.bind_eq_some_iff.mp h
    obtain ⟨output, -, rfl⟩ := Option.map_eq_some_iff.mp h
    show own (update m.objects o _) s = _
    rw [own_setPointer ho]
    exact update_of_ne hs _ _
  | timeStamp o time =>
    obtain ⟨it, ho, rfl⟩ := Option.map_eq_some_iff.mp h
    refine congrFun (own_update_same fun k => ?_) s
    rw [ho]
    cases k <;> rfl
  | destroy o =>
    obtain ⟨it, -, h⟩ := Option.bind_eq_some_iff.mp h
    obtain ⟨h₁, -, rfl⟩ := Option.map_eq_some_iff.mp h
    exact own_update_of_ne hs _

omit [DecidableEq ι] in
theorem not_mem_deleteBoth {h h' : Heap Output} (hdelete : it.deleteBoth h = some h')
    (hp : ptr ∉ h ∨ ∃ k, it.pointer k = some ptr) : ptr ∉ h' := by
  obtain ⟨h₁, hdelete₁, hdelete₂⟩ := Option.bind_eq_some_iff.mp hdelete
  rcases hp with hp | ⟨k, hk⟩
  · exact not_mem_delete hdelete₂ (not_mem_delete hdelete₁ hp)
  · cases k with
    | stat => exact not_mem_delete hdelete₂ (not_mem_of_delete hk hdelete₁)
    | readLink => exact not_mem_of_delete hk hdelete₂

omit [DecidableEq ι] in
theorem not_mem_copyBoth {h : Heap Output} {r : Entry × Heap Output}
    (hcopy : it.copyBoth A h = some r) (hA : ∀ h, A.choose h ≠ ptr) (hp : ptr ∉ h) :
    ptr ∉ r.2 := by
  obtain ⟨r₁, hcopy₁, hcopy⟩ := Option.bind_eq_some_iff.mp hcopy
  obtain ⟨r₂, hcopy₂, rfl⟩ := Option.map_eq_some_iff.mp hcopy
  exact not_mem_copy A hcopy₂ hA (not_mem_copy A hcopy₁ hA hp)

/-- Where the allocator avoids an address, an output that is not there or is deleted does not
come back. -/
theorem not_mem_exec (h : u.exec A m = some m') (hA : ∀ h, A.choose h ≠ ptr)
    (hp : ptr ∉ m.heap ∨ ∃ s, u.Deletes s ∧ own m.objects s = some ptr) : ptr ∉ m'.heap := by
  cases u with
  | construct o now =>
    have hp := hp.resolve_right fun ⟨_, h, _⟩ => h
    rw [Use.exec] at h
    split at h
    · cases h
      exact hp
    · cases h
  | copy o orig =>
    have hp := hp.resolve_right fun ⟨_, h, _⟩ => h
    rw [Use.exec] at h
    split at h
    · obtain ⟨r, hcopy, rfl⟩ := Option.map_eq_some_iff.mp h
      exact not_mem_copyBoth A hcopy hA hp
    · cases h
  | assign o orig =>
    have hp := hp.resolve_right fun ⟨_, h, _⟩ => h
    rw [Use.exec] at h
    split at h
    · split at h
      · cases h
        exact hp
      · obtain ⟨h₁, hdelete, h⟩ := Option.bind_eq_some_iff.mp h
        obtain ⟨r, hcopy, rfl⟩ := Option.map_eq_some_iff.mp h
        exact not_mem_copyBoth A hcopy hA (not_mem_deleteBoth hdelete (Or.inl hp))
    · cases h
  | setOutput o k output =>
    obtain ⟨it, ho, h⟩ := Option.bind_eq_some_iff.mp h
    obtain ⟨h₁, hdelete, rfl⟩ := Option.map_eq_some_iff.mp h
    apply not_mem_new A output hA
    rcases hp with hp | ⟨s, rfl, hown⟩
    · exact not_mem_delete hdelete hp
    · apply not_mem_of_delete _ hdelete
      rw [own, ho] at hown
      exact hown
  | setOutputOf o k source =>
    obtain ⟨it, ho, h⟩ := Option.bind_eq_some_iff.mp h
    obtain ⟨source, -, h⟩ := Option.bind_eq_some_iff.mp h
    obtain ⟨h₁, hdelete, h⟩ := Option.bind_eq_some_iff.mp h
    obtain ⟨output, -, rfl⟩ := Option.map_eq_some_iff.mp h
    apply not_mem_new A output hA
    rcases hp with hp | ⟨s, rfl, hown⟩
    · exact not_mem_delete hdelete hp
    · apply not_mem_of_delete _ hdelete
      rw [own, ho] at hown
      exact hown
  | timeStamp o time =>
    obtain ⟨it, -, rfl⟩ := Option.map_eq_some_iff.mp h
    exact hp.resolve_right fun ⟨_, h, _⟩ => h
  | destroy o =>
    obtain ⟨it, ho, h⟩ := Option.bind_eq_some_iff.mp h
    obtain ⟨h₁, hdelete, rfl⟩ := Option.map_eq_some_iff.mp h
    apply not_mem_deleteBoth hdelete
    rcases hp with hp | ⟨s, rfl, hown⟩
    · exact Or.inl hp
    · rw [own, ho] at hown
      exact Or.inr ⟨s.2, hown⟩

/-- No use of a run changes the member. -/
theorem own_execAll {us : List (Use ι)} (h : execAll A m us = some m')
    (hs : ∀ u ∈ us, ¬ u.Changes s) : own m'.objects s = own m.objects s := by
  induction us generalizing m with
  | nil =>
    cases h
    rfl
  | cons u us ih =>
    unfold execAll at h ih
    rw [List.foldlM_cons] at h
    obtain ⟨m₁, hu, h⟩ := Option.bind_eq_some_iff.mp h
    have hrest := ih h fun v hv => hs v (List.mem_cons_of_mem u hv)
    exact hrest.trans (own_exec A hu (hs u List.mem_cons_self))

theorem not_mem_execAll {us : List (Use ι)} (h : execAll A m us = some m')
    (hA : ∀ h, A.choose h ≠ ptr) (hp : ptr ∉ m.heap) : ptr ∉ m'.heap := by
  induction us generalizing m with
  | nil =>
    cases h
    exact hp
  | cons u us ih =>
    unfold execAll at h ih
    rw [List.foldlM_cons] at h
    obtain ⟨m₁, hu, h⟩ := Option.bind_eq_some_iff.mp h
    exact ih h (not_mem_exec A hu hA (Or.inl hp))

end FileCache.Raw

end AdbncFs
