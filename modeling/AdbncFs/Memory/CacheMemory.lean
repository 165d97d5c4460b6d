import AdbncFs.Cache.LastPut
import AdbncFs.Memory.Entries

/-!
# The cache in memory

`FileCache` over entries with pointers. Its nodes and the local variable of `putStat` and
`putReadLink` are objects of the class, so `cache_refines` follows from what holds for all such
objects: for every run of calls the cache is the one with the outputs as values, and it has no
memory error and no leak.

`getStat` and `getReadLink` give a pointer into the cache, and their callers copy the output
only afterwards, with no lock. `pointer_alive_iff` says what the other callers may do in
between.
-/

namespace AdbncFs.FileCache.Raw

open Text Function Ownership Memory

/-! ## The source -/

/-- The memory of the cache: a node for each path of the map, and the local variable. -/
abbrev CacheMemory := Memory (Option Str)

variable (A : Allocator Output)

/-- `putStat` and `putReadLink`. The clock is read at `now`, and again at `later` when the map
makes a node. -/
def put (k : Kind) (m : CacheMemory) (pcPath : Str) (output : Output) (now later : Int) :
    Option CacheMemory :=
  match m.objects (some pcPath) with
  | none =>
    execAll A m [.construct none now, .setOutput none k output,
      .construct (some pcPath) later, .assign (some pcPath) none, .destroy none]
  | some _ => execAll A m [.setOutput (some pcPath) k output, .timeStamp (some pcPath) now]

/-- `getStat` and `getReadLink`: null, or the address of the output. -/
def get (k : Kind) (m : CacheMemory) (pcPath : Str) (now : Int) : Option Nat :=
  match m.objects (some pcPath) with
  | none => none
  | some it =>
    if it.m_Timestamp + iFileDataCacheSecondsValid > now then it.pointer k else none

def invalidate (m : CacheMemory) (pcPath : Str) : Option CacheMemory :=
  match m.objects (some pcPath) with
  | none => some m
  | some _ => execAll A m [.destroy (some pcPath)]

def putStat := put A .stat

def putReadLink := put A .readLink

def getStat := get .stat

def getReadLink := get .readLink

/-- A call with what the clock says to it. -/
structure Timed where
  now : Int
  later : Int
  call : Call

def Timed.exec (m : CacheMemory) (t : Timed) : Option CacheMemory :=
  match t.call with
  | .put k p o => put A k m p o t.now t.later
  | .invalidate p => invalidate A m p
  | .get _ _ => some m

def execCalls (m : CacheMemory) (ts : List Timed) : Option CacheMemory :=
  ts.foldlM (fun m t => t.exec A m) m

/-! ## The refinement -/

/-- The cache with its outputs as values. -/
def cacheOf (m : CacheMemory) : FileCache := fun pcPath => m.values (some pcPath)

/-- The cache after these calls. -/
def afterCalls (c : FileCache) (ts : List Timed) : FileCache :=
  ts.foldl (fun c t => t.call.apply t.now c) c

/-- Between two calls there is no local variable. -/
structure Ready (m : CacheMemory) : Prop where
  sound : m.Sound
  noLocal : m.objects none = none

variable {A} {m : CacheMemory}

theorem ready_empty : Ready Memory.empty := ⟨sound_empty, rfl⟩

theorem objects_of_values {ι : Type} {m : Memory ι} {o : ι} (h : m.values o = none) :
    m.objects o = none := Option.map_eq_none_iff.mp h

/-- A run of uses that is defined for the values leads to these values. -/
theorem Ready.exec (hm : Ready m) {us : List (Use (Option Str))}
    {values : Option Str → Option FileCache.Entry} (hvalues : applyAll m.values us = some values)
    (hnone : values none = none) :
    ∃ m', execAll A m us = some m' ∧ Ready m' ∧ cacheOf m' = fun p => values (some p) := by
  obtain ⟨hmap, hsound⟩ := execAll_spec A hm.sound us
  rw [hvalues] at hmap
  obtain ⟨m', hexec, rfl⟩ := Option.map_eq_some_iff.mp hmap
  exact ⟨m', hexec, ⟨hsound m' hexec, objects_of_values hnone⟩, rfl⟩

theorem cacheOf_update (values : Option Str → Option FileCache.Entry) (p : Str)
    (x : Option FileCache.Entry) :
    (fun q => update values (some p) x (some q)) = update (fun q => values (some q)) p x :=
  update_comp_eq_of_injective values (fun _ _ h => Option.some.inj h) p x

theorem Ready.put (hm : Ready m) (k : Kind) (p : Str) (o : Output) (now later : Int) :
    ∃ m', put A k m p o now later = some m' ∧ Ready m' ∧
      cacheOf m' = (cacheOf m).put k p o now := by
  have hlocal := values_of_none hm.noLocal
  unfold Raw.put
  cases hp : m.objects (some p) with
  | none =>
    have hnode := values_of_none hp
    have happly : applyAll m.values [.construct none now, .setOutput none k o,
        .construct (some p) later, .assign (some p) none, .destroy none] =
        some (update (update m.values (some p)
          (some ((FileCache.Entry.new now).setOutput o k))) none none) := by
      simp [applyAll, Use.apply, hlocal, hnode, update_comm]
    have hnone : update (update m.values (some p)
        (some ((FileCache.Entry.new now).setOutput o k))) none none none = none :=
      update_self _ _ _
    obtain ⟨m', hexec, hready, hcache⟩ := hm.exec happly hnone
    refine ⟨m', hexec, hready, ?_⟩
    have hput : (cacheOf m).put k p o now =
        update (cacheOf m) p (some ((FileCache.Entry.new now).setOutput o k)) := by
      unfold FileCache.put cacheOf
      rw [hnode]
    rw [hcache, hput]
    refine Eq.trans ?_ (cacheOf_update m.values p _)
    funext q
    exact update_of_ne (Option.some_ne_none q) _ _
  | some it =>
    have hnode := values_of_some hp
    have happly : applyAll m.values [.setOutput (some p) k o, .timeStamp (some p) now] =
        some (update m.values (some p)
          (some (((it.value m.heap).setOutput o k).timeStamp now))) := by
      simp [applyAll, Use.apply, hnode]
    have hnone : update m.values (some p)
        (some (((it.value m.heap).setOutput o k).timeStamp now)) none = none := by
      rw [update_of_ne (Option.some_ne_none p).symm, hlocal]
    obtain ⟨m', hexec, hready, hcache⟩ := hm.exec happly hnone
    refine ⟨m', hexec, hready, ?_⟩
    have hput : (cacheOf m).put k p o now =
        update (cacheOf m) p (some (((it.value m.heap).setOutput o k).timeStamp now)) := by
      unfold FileCache.put cacheOf
      rw [hnode]
    rw [hcache, hput]
    exact cacheOf_update m.values p _

theorem Ready.invalidate (hm : Ready m) (p : Str) :
    ∃ m', invalidate A m p = some m' ∧ Ready m' ∧ cacheOf m' = (cacheOf m).invalidate p := by
  have hlocal := values_of_none hm.noLocal
  unfold Raw.invalidate
  cases hp : m.objects (some p) with
  | none =>
    refine ⟨m, rfl, hm, ?_⟩
    have hnode : cacheOf m p = none := values_of_none hp
    rw [FileCache.invalidate, ← hnode, update_eq_self]
  | some it =>
    have hnode := values_of_some hp
    have happly : applyAll m.values [.destroy (some p)] =
        some (update m.values (some p) none) := by
      simp [applyAll, Use.apply, hnode]
    have hnone : update m.values (some p) none none = none := by
      rw [update_of_ne (Option.some_ne_none p).symm, hlocal]
    obtain ⟨m', hexec, hready, hcache⟩ := hm.exec happly hnone
    refine ⟨m', hexec, hready, ?_⟩
    rw [hcache]
    exact cacheOf_update m.values p none

/-- One call. -/
theorem Ready.call (hm : Ready m) (t : Timed) :
    ∃ m', t.exec A m = some m' ∧ Ready m' ∧ cacheOf m' = t.call.apply t.now (cacheOf m) := by
  obtain ⟨now, later, call⟩ := t
  cases call with
  | put k p o => exact hm.put k p o now later
  | invalidate p => exact hm.invalidate p
  | get k p => exact ⟨m, rfl, hm, rfl⟩

theorem Ready.calls (hm : Ready m) (ts : List Timed) :
    ∃ m', execCalls A m ts = some m' ∧ Ready m' ∧ cacheOf m' = afterCalls (cacheOf m) ts := by
  induction ts generalizing m with
  | nil => exact ⟨m, rfl, hm, rfl⟩
  | cons t ts ih =>
    obtain ⟨m₁, hexec₁, hready₁, hcache₁⟩ := hm.call (A := A) t
    obtain ⟨m₂, hexec₂, hready₂, hcache₂⟩ := ih hready₁
    refine ⟨m₂, ?_, hready₂, ?_⟩
    · unfold execCalls at *
      rw [List.foldlM_cons, hexec₁]
      exact hexec₂
    · rw [hcache₂, hcache₁]
      rfl

/-- What a pointer that is not null points to is what the cache answers. -/
theorem get_value (m : CacheMemory) (k : Kind) (p : Str) (now : Int) :
    (get k m p now).bind m.heap.lookup = (cacheOf m).get k p now := by
  unfold get FileCache.get cacheOf isValid values
  cases hp : m.objects (some p) with
  | none => rfl
  | some it =>
    simp only [Option.map_some, Entry.value, decide_eq_true_eq]
    by_cases hvalid : it.m_Timestamp + iFileDataCacheSecondsValid > now
    · rw [if_pos hvalid, if_pos hvalid]
      cases k <;> rfl
    · rw [if_neg hvalid, if_neg hvalid]
      rfl

theorem own_of_get {k : Kind} {p : Str} {ptr : Nat} {now : Int} (hget : get k m p now = some ptr) :
    own m.objects (some p, k) = some ptr := by
  unfold get at hget
  unfold own
  cases hp : m.objects (some p) with
  | none =>
    rw [hp] at hget
    cases hget
  | some it =>
    rw [hp] at hget
    dsimp only at hget
    split at hget
    · exact hget
    · cases hget

/-- In every run the memory of the cache is used in a defined way, the outputs on the heap are
the ones that its entries own, and each answer is an output on the heap that is the answer of
the cache with its outputs as values. -/
theorem cache_refines (A : Allocator Output) (ts : List Timed) :
    ∃ m, execCalls A Memory.empty ts = some m ∧ m.Sound ∧ m.objects none = none ∧
      cacheOf m = afterCalls FileCache.empty ts ∧
      ∀ k p now, (∀ ptr, get k m p now = some ptr → ptr ∈ m.heap) ∧
        (get k m p now).bind m.heap.lookup = (afterCalls FileCache.empty ts).get k p now := by
  obtain ⟨m, hexec, hready, hcache⟩ := ready_empty.calls (A := A) ts
  have hempty : cacheOf Memory.empty = FileCache.empty := rfl
  rw [hempty] at hcache
  refine ⟨m, hexec, hready.sound, hready.noLocal, hcache, fun k p now => ⟨?_, ?_⟩⟩
  · exact fun ptr hget => hready.sound.alive _ ptr (own_of_get hget)
  · rw [← hcache]
    exact get_value m k p now

/-! ## Pointers into the cache -/

variable {m' : CacheMemory} {k : Kind} {p : Str} {ptr : Nat} {t : Timed}

/-- A call that does not end an output keeps the pointer to it. -/
theorem own_call (h : t.exec A m = some m') (hown : own m.objects (some p, k) = some ptr)
    (hends : ¬ t.call.Ends k p) : own m'.objects (some p, k) = some ptr := by
  obtain ⟨now, later, call⟩ := t
  cases call with
  | get l q =>
    cases h
    exact hown
  | invalidate q =>
    have hq : p ≠ q := fun h => hends h.symm
    change invalidate A m q = some m' at h
    unfold invalidate at h
    split at h
    · cases h
      exact hown
    · rw [← hown]
      apply own_execAll A h
      simpa [Use.Changes] using hq
  | put l q o =>
    have hq : p = q → k ≠ l := fun h h' => hends ⟨h.symm, h'.symm⟩
    change put A l m q o now later = some m' at h
    unfold put at h
    split at h
    · rename_i hnode
      have hp : p ≠ q := by
        rintro rfl
        rw [own, hnode] at hown
        cases hown
      rw [← hown]
      apply own_execAll A h
      simpa [Use.Changes] using hp
    · rw [← hown]
      apply own_execAll A h
      simpa [Use.Changes] using hq

theorem not_mem_call (h : t.exec A m = some m') (hA : ∀ h, A.choose h ≠ ptr)
    (hp : ptr ∉ m.heap) : ptr ∉ m'.heap := by
  obtain ⟨now, later, call⟩ := t
  cases call with
  | get l q =>
    cases h
    exact hp
  | invalidate q =>
    change invalidate A m q = some m' at h
    unfold invalidate at h
    split at h
    · cases h
      exact hp
    · exact not_mem_execAll A h hA hp
  | put l q o =>
    change put A l m q o now later = some m' at h
    unfold put at h
    split at h <;> exact not_mem_execAll A h hA hp

/-- A call that ends an output deletes it. -/
theorem not_mem_ended (h : t.exec A m = some m') (hA : ∀ h, A.choose h ≠ ptr)
    (hown : own m.objects (some p, k) = some ptr) (hends : t.call.Ends k p) :
    ptr ∉ m'.heap := by
  obtain ⟨it, hnode, -⟩ := Option.bind_eq_some_iff.mp hown
  change m.objects (some p) = some it at hnode
  obtain ⟨now, later, call⟩ := t
  cases call with
  | get l q => exact hends.elim
  | invalidate q =>
    obtain rfl : q = p := hends
    change invalidate A m q = some m' at h
    rw [invalidate, hnode] at h
    obtain ⟨m₁, hu, h⟩ := Option.bind_eq_some_iff.mp h
    cases h
    exact not_mem_exec A hu hA (Or.inr ⟨(some q, k), rfl, hown⟩)
  | put l q o =>
    obtain ⟨rfl, rfl⟩ := hends
    change put A l m q o now later = some m' at h
    rw [put, hnode] at h
    obtain ⟨m₁, hu, h⟩ := Option.bind_eq_some_iff.mp h
    have hgone : ptr ∉ m₁.heap := not_mem_exec A hu hA (Or.inr ⟨(some q, l), rfl, hown⟩)
    exact not_mem_execAll A h hA hgone

theorem execCalls_cons {ts : List Timed} (h : execCalls A m (t :: ts) = some m') :
    ∃ m₁, t.exec A m = some m₁ ∧ execCalls A m₁ ts = some m' := by
  unfold execCalls at *
  rw [List.foldlM_cons] at h
  exact Option.bind_eq_some_iff.mp h

theorem own_calls {ts : List Timed} (h : execCalls A m ts = some m')
    (hown : own m.objects (some p, k) = some ptr) (hends : ∀ t ∈ ts, ¬ t.call.Ends k p) :
    own m'.objects (some p, k) = some ptr := by
  induction ts generalizing m with
  | nil =>
    cases h
    exact hown
  | cons t ts ih =>
    obtain ⟨m₁, ht, h⟩ := execCalls_cons h
    exact ih h (own_call ht hown (hends t List.mem_cons_self)) fun u hu =>
      hends u (List.mem_cons_of_mem t hu)

theorem not_mem_calls {ts : List Timed} (h : execCalls A m ts = some m')
    (hA : ∀ h, A.choose h ≠ ptr) (hp : ptr ∉ m.heap) : ptr ∉ m'.heap := by
  induction ts generalizing m with
  | nil =>
    cases h
    exact hp
  | cons t ts ih =>
    obtain ⟨m₁, ht, h⟩ := execCalls_cons h
    exact ih h (not_mem_call ht hA hp)

theorem not_mem_of_ended {ts : List Timed} (h : execCalls A m ts = some m')
    (hA : ∀ h, A.choose h ≠ ptr) (hown : own m.objects (some p, k) = some ptr)
    (hends : ∃ t ∈ ts, t.call.Ends k p) : ptr ∉ m'.heap := by
  induction ts generalizing m with
  | nil =>
    obtain ⟨t, ht, -⟩ := hends
    cases ht
  | cons t ts ih =>
    obtain ⟨m₁, ht, h⟩ := execCalls_cons h
    by_cases hfirst : t.call.Ends k p
    · exact not_mem_calls h hA (not_mem_ended ht hA hown hfirst)
    · obtain ⟨u, hu, huends⟩ := hends
      rcases List.mem_cons.mp hu with rfl | hu
      · exact absurd huends hfirst
      · exact ih h (own_call ht hown hfirst) ⟨u, hu, huends⟩

theorem kept_afterCalls {ts : List Timed} (c : FileCache) (hends : ∀ t ∈ ts, ¬ t.call.Ends k p) :
    (afterCalls c ts).kept k p = c.kept k p := by
  induction ts generalizing c with
  | nil => rfl
  | cons t ts ih =>
    have hfirst := hends t List.mem_cons_self
    have hrest := ih (t.call.apply t.now c) fun u hu => hends u (List.mem_cons_of_mem t hu)
    refine hrest.trans ?_
    cases hcall : t.call with
    | put l q o =>
      rw [hcall] at hfirst
      rw [Call.apply, kept_put, if_neg fun h => hfirst ⟨h.1.symm, h.2.symm⟩]
    | invalidate q =>
      rw [hcall] at hfirst
      rw [Call.apply, kept_invalidate, if_neg fun h => hfirst h.symm]
    | get l q => rfl

/-- The output behind the member of a path. -/
theorem kept_cacheOf (hown : own m.objects (some p, k) = some ptr) :
    (cacheOf m).kept k p = m.heap.lookup ptr := by
  obtain ⟨it, hnode, hpointer⟩ := Option.bind_eq_some_iff.mp hown
  change m.objects (some p) = some it at hnode
  rw [kept, cacheOf, values_of_some hnode, Option.bind_some, ← held_eq hnode]
  exact held_of_some hown

/-- While a caller has the pointer, the other callers may do anything but put an output of its
kind on the path or invalidate the path. Each of these lets the pointer dangle. -/
theorem pointer_alive_iff {A₀ : Allocator Output} {before ts : List Timed} {now : Int}
    (hm : execCalls A₀ Memory.empty before = some m) (hget : get k m p now = some ptr) :
    (∀ A, ∃ m', execCalls A m ts = some m' ∧ m'.heap.lookup ptr = m.heap.lookup ptr) ↔
      ∀ t ∈ ts, ¬ t.call.Ends k p := by
  obtain ⟨m₀, hm₀, hready, -⟩ := ready_empty.calls (A := A₀) before
  obtain rfl : m = m₀ := Option.some.inj (hm.symm.trans hm₀)
  have hown := own_of_get hget
  constructor
  · intro h t ht hends
    obtain ⟨m', hexec, hsame⟩ := h (Allocator.avoiding ptr)
    have hgone : ptr ∉ m'.heap :=
      not_mem_of_ended hexec (Allocator.avoiding_ne ptr) hown ⟨t, ht, hends⟩
    obtain ⟨o, ho⟩ := hready.sound.exists_held hown
    rw [ho, AList.lookup_eq_none.mpr hgone] at hsame
    cases hsame
  · intro hends A
    obtain ⟨m', hexec, -, hcache⟩ := hready.calls (A := A) ts
    refine ⟨m', hexec, ?_⟩
    rw [← kept_cacheOf (own_calls hexec hown hends), ← kept_cacheOf hown, hcache,
      kept_afterCalls _ hends]

/-- A pointer to the attributes of a file, while the link is resolved and another file changes,
and while the file itself changes. -/
theorem pointer_alive_meanwhile :
    let before : List Timed := [⟨0, 0, .put .stat ['/', 'a'] [['f']]⟩]
    let others : List Timed :=
      [⟨1, 1, .put .readLink ['/', 'a'] [['/']]⟩, ⟨1, 1, .invalidate ['/', 'b']⟩]
    let change : List Timed := [⟨1, 1, .invalidate ['/', 'a']⟩]
    ∃ m ptr, execCalls (.avoiding 0) Memory.empty before = some m ∧
      getStat m ['/', 'a'] 1 = some ptr ∧
      (∀ A, ∃ m', execCalls A m others = some m' ∧ m'.heap.lookup ptr = m.heap.lookup ptr) ∧
      ¬ ∀ A, ∃ m', execCalls A m change = some m' ∧ m'.heap.lookup ptr = m.heap.lookup ptr := by
  intro before others change
  obtain ⟨m, hexec, -, hcache⟩ := ready_empty.calls (A := .avoiding 0) before
  have hanswer : (cacheOf m).get .stat ['/', 'a'] 1 = some [['f']] := by
    rw [hcache]
    decide
  rw [← get_value] at hanswer
  obtain ⟨ptr, hget, -⟩ := Option.bind_eq_some_iff.mp hanswer
  refine ⟨m, ptr, hexec, hget, ?_, fun h => ?_⟩
  · apply (pointer_alive_iff hexec hget).mpr
    simp [others, Call.Ends]
  · apply (pointer_alive_iff hexec hget).mp h ⟨1, 1, .invalidate ['/', 'a']⟩
    · exact List.mem_singleton_self _
    · rfl

end AdbncFs.FileCache.Raw
