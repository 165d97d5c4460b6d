import AdbncFs.Contents.Simulation

/-!
# What readers see and what the device gets

Any number of threads each run a client that works on files of its own, from a temporary
directory without copies of them. Their operations are done in any order, also in the orders that
the mutexes exclude, and transfers may fail. A client that has returned got the answers of a store
that nobody else uses. A read gives the bytes that replaying the edits of its path gives, from the
device's file on (`threads_read_replay`). The device has, for each path no save of which has failed,
what replaying the edits up to the last save gives (`threads_device_replay`).
-/

namespace AdbncFs

open Text Interaction Function WriteBack

/-! ## What the store has become -/

/-- What the calls of a client were to its store. -/
def acts (es : List (Event Calls)) : List (Act Str Int Str) := es.filterMap storeAct

theorem acts_cons (e : Event Calls) (es : List (Event Calls)) :
    acts (e :: es) = (storeAct e).toList ++ acts es := by
  rw [acts, List.filterMap_cons]
  cases storeAct e <;> rfl

theorem Caller.store_after (s : Caller) (e : Event Calls) :
    (s.after e).store = s.store.run (storeAct e).toList := by
  rw [after]
  dsimp only
  split
  · rename_i h
    rw [h]
    rfl
  · rename_i a h
    rw [h]
    rfl

theorem store_of_follows {s t : Caller} {es : List (Event Calls)}
    (h : onStore.Follows s es t) : t.store = s.store.run (acts es) := by
  induction es generalizing s with
  | nil =>
    obtain rfl := h
    rfl
  | cons e es ih =>
    obtain ⟨-, s', ⟨-, rfl⟩, h⟩ := h
    rw [ih h, s.store_after e, acts_cons, Store.run, Store.run, Store.run, List.foldl_append]

/-- A path stays one of the caller's as long as no save of it fails. -/
theorem mem_paths_of_follows {s t : Caller} {es : List (Event Calls)}
    (h : onStore.Follows s es t) {p : Str} (hp : p ∈ s.paths)
    (hsaves : ∀ e ∈ es, Callback.Sends p e.1 → Reply.result e.2 = 0) : p ∈ t.paths := by
  induction es generalizing s with
  | nil =>
    obtain rfl := h
    exact hp
  | cons e es ih =>
    obtain ⟨-, s', ⟨-, rfl⟩, h⟩ := h
    refine ih h ⟨hp, fun hfail => ?_⟩ fun d hd => hsaves d (List.mem_cons_of_mem e hd)
    exact hfail.2 (hsaves e List.mem_cons_self hfail.1)

/-! ## Every interleaving -/

section

variable {ε α ι : Type} {env : Env ε} {v : DiskView env} {g : Globals} {w : World ε}

/-- The temporary directory has no copy of the paths yet. -/
structure NewCopies (v : DiskView env) (g : Globals) (S : Set Str) (w : World ε) : Prop where
  status : ∀ p ∈ S, w.fileStatus p = none
  copies : ∀ p ∈ S, (v.disk w.env).content (g.localPath p) = none
  host : ∀ p ∈ S, (v.disk w.env).content p = none

/-- What a caller sees that has not opened a file yet. -/
def View.unopened (x : View) : View := { x with disk := { x.disk with handle := fun _ => none } }

theorem View.unopened_agrees (S : Set Str) (x : View) : x.unopened.Agrees g S x where
  status _ _ := rfl
  copy _ _ := rfl
  host _ _ := rfl
  remote _ _ := rfl
  handle _ _ hl := by cases hl

theorem NewCopies.stands {S T : Set Str} (h : NewCopies v g T w) (hST : S ⊆ T) :
    Stands g (Caller.start S (v.disk w.env).remote) (v.view w).unopened where
  holds p hp := by
    have hentry : w.fileStatus.entry p = FileStatus.Entry.new := by
      rw [FileStatus.entry, h.status p (hST hp), Option.getD_none]
    have hview : (v.view w).unopened.status.entry p = FileStatus.Entry.new := hentry
    exact {
      stored := rfl
      copy := Or.inl (h.copies p (hST hp))
      opened := fun _ hfh => by cases hfh
      unsaved := fun hne => absurd rfl hne
      pending := fun hpending => by
        rw [hview] at hpending
        exact Bool.noConfusion hpending
      notRenamed := by rw [hview]; rfl
      notTruncated := by rw [hview]; rfl
      host := h.host p (hST hp) }
  handle _ _ hfh := by cases hfh

variable [DecidableEq ι] {S : ι → Set Str} {clients : ι → Program Calls α}

/-- The threads of these clients after a schedule. A thread that has returned gives the calls it
has made with their replies, beside the result of its client. -/
def afterSchedule (env : Env ε) (g : Globals) (clients : ι → Program Calls α) (is : List ι)
    (w : World ε) : Pool Sys ι (List (Event Calls) × α) (World ε) :=
  (Pool.exec env.handle is ⟨fun i => served g (clients i).logged, w⟩).2

variable (hS : Apart g (⋃ i, S i)) (hdisj : Pairwise fun i j => ∀ p ∈ S i, p ∉ S j)
  (hw : NewCopies v g (⋃ i, S i) w)
  (hclients : ∀ i, (clients i).Obeys onStore (Caller.start (S i) (v.disk w.env).remote)
    fun _ _ => True) (is : List ι)
include hS hdisj hw hclients

/-- What the clients see is right, and what is left of each one leads to where its store is. -/
theorem exec_clients :
    ∃ y : ι → View, Shared v g S w y (afterSchedule env g clients is w).shared ∧
      ∀ i, ((afterSchedule env g clients is w).threads i).Obeys (seen g (S i)) (y i)
        fun x z => ∃ s, (clients i).Path x.1 x.2 ∧
          onStore.Follows (Caller.start (S i) (v.disk w.env).remote) x.1 s ∧
          s.paths ⊆ S i ∧ Stands g s z := by
  have hsub : ∀ i, S i ⊆ ⋃ i, S i := Set.subset_iUnion S
  have hserved : ∀ i, (served g (clients i).logged).Obeys (seen g (S i)) (v.view w).unopened
      fun x z => ∃ s, (clients i).Path x.1 x.2 ∧
        onStore.Follows (Caller.start (S i) (v.disk w.env).remote) x.1 s ∧
        s.paths ⊆ S i ∧ Stands g s z := by
    intro i
    have hstart := hw.stands (hsub i)
    have hclient := (hclients i).logged
    refine (obeys_served (hS.mono (hsub i)) subset_rfl hstart hclient).mono fun x z hz => ?_
    obtain ⟨es, s, hpath, hfollows, -, hstands⟩ := hz
    obtain ⟨rfl, hpath⟩ := Program.path_logged hpath
    exact ⟨s, hpath, hfollows, hstands⟩
  exact exec_seen v hS hdisj (fun i => View.unopened_agrees (S i) (v.view w)) hserved is

/-- A client that has returned has followed its store, and the device has what is stored. -/
theorem exec_served {i : ι} {es : List (Event Calls)} {a : α}
    (hret : (afterSchedule env g clients is w).threads i = .ret (es, a)) :
    ∃ s, (clients i).Path es a ∧
      onStore.Follows (Caller.start (S i) (v.disk w.env).remote) es s ∧
      ∀ p ∈ s.paths, (v.disk (afterSchedule env g clients is w).shared.env).remote p =
        s.store.stored p := by
  obtain ⟨y, hshared, hobeys⟩ := exec_clients hS hdisj hw hclients is
  have hend := hobeys i
  rw [hret] at hend
  obtain ⟨s, hpath, hfollows, hpaths, hstands⟩ := hend
  refine ⟨s, hpath, hfollows, fun p hp => ?_⟩
  exact ((hshared.agrees i).remote p (hpaths hp)).trans (hstands.holds p hp).stored

end

/-! ## Two threads -/

namespace Copies

/-- The file that an open handle is on. -/
def onFile (e : Copies) (fd : Int) : Option Str := if fd < e.next then e.handles fd else none

/-- A write that fills a gap with zeros. -/
def pwrite (fd : Int) (pcBuf : Str) (iOffset : Int) (e : Copies) : Except Int Int × Copies :=
  match (e.onFile fd).bind fun l => (e.files l).map (l, ·) with
  | some (l, c) =>
    (.ok pcBuf.length, { e with files := update e.files l (some (splice pcBuf iOffset c)) })
  | none => (.error EBADF, e)

def filling : Env Copies where
  time := Copies.env.time
  shell := Copies.env.shell
  spawn := Copies.env.spawn
  syscall
    | .pwrite fd pcBuf iOffset, e => e.pwrite fd pcBuf iOffset
    | call, e => Copies.syscall call e

theorem spawn_pull (l p : Str) (e : Copies) : e.spawn (adbArgv false l p) =
    { e with files := update e.files l ((e.device p).or (e.files l)) } := by
  simp [Copies.spawn, adbArgv]

theorem spawn_push (l p : Str) (e : Copies) : e.spawn (adbArgv true l p) =
    { e with device := update e.device p ((e.files l).or (e.device p)) } := by
  simp [Copies.spawn, adbArgv]

def disk (e : Copies) : Disk := ⟨e.files, e.device, e.onFile⟩

def diskView : DiskView filling where
  disk := disk
  time_disk _ := rfl
  asks_disk command e _ := by cases command <;> rfl
  stat_disk _ _ := rfl
  stat_gives l e := by
    change Gives _ _ (if (e.files l).isSome then (.ok 0 : Except Int Int) else .error ENOENT)
    cases h : e.files l with
    | none => exact ⟨by decide, trivial⟩
    | some c => exact fun hnone => Option.some_ne_none c (h.symm.trans hnone)
  fsync_disk _ _ := rfl
  fsync_gives fd e := by
    change Gives _ _ (if (e.handles fd).isSome then (.ok 0 : Except Int Int) else .error EBADF)
    cases e.handles fd with
    | none => exact ⟨by decide, trivial⟩
    | some l => trivial
  open_gives l pFi e h := by
    have htrunc : pFi.flags.toNat &&& O_TRUNC = 0 := by
      rw [FileInfo.Plain, Nat.and_or_distrib_left, Nat.or_eq_zero_iff] at h
      exact h.2
    have hsyscall : filling.syscall (.open' l pFi.flags) e =
        if (e.files l).isSome then
          (.ok e.next, { e with handles := update e.handles e.next (some l), next := e.next + 1 })
        else (.error ENOENT, e) := by
      change Copies.syscall (.open' l pFi.flags) e = _
      simp only [Copies.syscall, if_pos htrunc]
    rw [hsyscall]
    cases hl : e.files l with
    | none => exact ⟨by decide, rfl⟩
    | some c =>
      refine ⟨fun hnone => Option.some_ne_none c (hl.symm.trans hnone), ?_, ?_⟩
      · exact if_neg (lt_irrefl _)
      · refine congrArg (Disk.mk e.files e.device) (funext fun fd => ?_)
        simp only [onFile, Option.isSome_some, if_true]
        by_cases hfd : fd = e.next
        · subst hfd
          have hlt : e.next < e.next + 1 := by omega
          simp only [update_self, hlt, if_true]
        · have hlt : fd < e.next + 1 ↔ fd < e.next := by omega
          simp only [update_of_ne hfd, hlt]
          rfl
  close_disk fd e := by
    refine ⟨none, congrArg (Disk.mk e.files e.device) (funext fun fd' => ?_)⟩
    change (if fd' < e.next then update e.handles fd none fd' else none) =
      update e.onFile fd none fd'
    by_cases hfd : fd' = fd
    · subst hfd
      simp
    · simp only [update_of_ne hfd]
      rfl
  pread_disk fd n off e := by
    have hsame : (Copies.syscall (.pread fd n off) e).2 = e := by
      unfold Copies.syscall
      dsimp only
      split <;> rfl
    exact congrArg disk hsame
  pread_gives fd n off e l c hl hc := by
    have hopen : e.handles fd = some l := by
      change (if fd < e.next then e.handles fd else none) = some l at hl
      split at hl
      · exact hl
      · cases hl
    have hbytes : (e.handles fd).bind e.files = some c := by
      rw [hopen]
      exact hc
    change Gives _ _ (Copies.syscall (.pread fd n off) e).1
    unfold Copies.syscall
    dsimp only
    rw [hbytes]
    rfl
  pwrite_gives fd data off e l c hl hc := by
    have hsyscall : filling.syscall (.pwrite fd data off) e =
        (.ok data.length, { e with files := update e.files l (some (splice data off c)) }) := by
      change e.pwrite fd data off = _
      have hl : e.onFile fd = some l := hl
      have hc : e.files l = some c := hc
      simp only [pwrite, hl, hc, Option.bind_some, Option.map_some]
      rfl
    rw [hsyscall]
    refine ⟨by omega, ?_⟩
    rw [Int.toNat_natCast, List.take_length]
    rfl
  mknod_gives l mode rdev e _ := by
    change Gives _ _ (Copies.syscall (.mknod l mode rdev) e).1
    have hsyscall : Copies.syscall (.mknod l mode rdev) e =
        if (e.files l).isSome then (.error EEXIST, e)
        else (.ok 0, { e with files := update e.files l (some []) }) := rfl
    cases hl : e.files l with
    | none =>
      rw [hl] at hsyscall
      rw [hsyscall]
      refine ⟨hl, ?_⟩
      exact congrArg (fun r : Except Int Int × Copies => r.2.disk) hsyscall
    | some c =>
      rw [hl] at hsyscall
      rw [hsyscall]
      refine ⟨by decide, ?_⟩
      exact congrArg (fun r : Except Int Int × Copies => r.2.disk) hsyscall
  pull_disk l p e := ⟨_, congrArg disk (spawn_pull l p e), Or.inr rfl⟩
  pull_ok l p e _ := congrArg disk (spawn_pull l p e)
  push_disk l p e := ⟨_, congrArg disk (spawn_push l p e)⟩
  push_ok l p e c hc _ := by
    have hlocal : e.files l = some c := hc
    have hpush := spawn_push l p e
    rw [hlocal, Option.some_or] at hpush
    exact congrArg disk hpush

/-- The device has two files; the local host has none. -/
def twoFiles : World Copies :=
  ⟨FileCache.empty, FileStatus.empty, fun _ => none,
    fun p => if p = ['/'] then some [] else if p = ['/', 'a'] then some ['o', 'l', 'd']
      else if p = ['/', 'b'] then some ['b'] else none, fun _ => none, 5⟩

/-- Each thread has one of them. -/
def onePath : Bool → Set Str
  | false => {['/', 'a']}
  | true => {['/', 'b']}

end Copies

def fuseCall (c : Callback) : Program Calls Reply := .send (S := Calls) c

/-- A client that opens and writes a file, flushes it when it is told to, and reads it. -/
def editFile (p data : Str) (fSave : Bool) : Program Calls Str := do
  let opened ← fuseCall (.open' p ⟨0, 2⟩)
  match opened.fh with
  | some fh =>
    if opened.result = 0 then
      let _ ← fuseCall (.write p data 0 ⟨fh, 2⟩)
      let saved ← if fSave then fuseCall (.flush p ⟨fh, 2⟩) else pure ⟨0, [], none⟩
      if saved.result = 0 then
        let answer ← fuseCall (.read p 3 0 ⟨fh, 2⟩)
        return answer.data
      else return []
    else return []
  | none => return []

theorem obeys_editFile {s : Caller} {p : Str} (hp : p ∈ s.paths)
    (hclean : s.store.unsaved p = none) (hread : p ∉ s.readSince) (data : Str) (fSave : Bool) :
    (editFile p data fSave).Obeys onStore s fun _ _ => True := by
  have hplain : FileInfo.Plain ⟨0, 2⟩ := by
    unfold FileInfo.Plain
    decide
  have hopen : onStore.allows s (.open' p ⟨0, 2⟩ : Callback) := ⟨hp, hplain, hclean⟩
  -- a read at the end needs the path and the handle
  have hend : ∀ {t : Caller} {fh : Int}, p ∈ t.paths → t.store.handles fh = some p →
      (do
        let answer ← fuseCall (.read p 3 0 ⟨fh, 2⟩)
        return answer.data : Program Calls Str).Obeys onStore t fun _ _ => True := by
    intro t fh hpt hfh
    have hallows : onStore.allows t (.read p 3 0 ⟨fh, 2⟩ : Callback) := ⟨hpt, hfh⟩
    exact Program.obeys_send_bind (S := Calls) (P := onStore) hallows fun _ _ _ =>
      Program.obeys_pure trivial
  refine Program.obeys_send_bind (S := Calls) (P := onStore) hopen fun opened t ht => ?_
  obtain ⟨-, rfl⟩ := ht
  split
  · rename_i fh hfh
    split
    · rename_i hzero
      have hact : storeAct ⟨.open' p ⟨0, 2⟩, opened⟩ = some (.opened p fh) :=
        (if_pos hzero).trans (congrArg (Option.map (Act.opened p)) hfh)
      have hhandle : (s.after ⟨.open' p ⟨0, 2⟩, opened⟩).store.handles fh = some p := by
        rw [Caller.after_act hact]
        exact update_self ..
      have hpath : p ∈ (s.after ⟨.open' p ⟨0, 2⟩, opened⟩).paths := ⟨hp, fun h => h.1⟩
      have hunread : p ∉ (s.after ⟨.open' p ⟨0, 2⟩, opened⟩).readSince := fun h =>
        hread (h.resolve_left id).1
      generalize s.after ⟨.open' p ⟨0, 2⟩, opened⟩ = t at hhandle hpath hunread ⊢
      have hwrite : onStore.allows t (.write p data 0 ⟨fh, 2⟩ : Callback) := ⟨hpath, hhandle⟩
      refine Program.obeys_send_bind (S := Calls) (P := onStore) hwrite fun written u hu => ?_
      obtain ⟨-, rfl⟩ := hu
      have hhandle' : (t.after ⟨.write p data 0 ⟨fh, 2⟩, written⟩).store.handles fh = some p := by
        rw [Caller.handles_after rfl rfl]
        exact hhandle
      have hpath' : p ∈ (t.after ⟨.write p data 0 ⟨fh, 2⟩, written⟩).paths :=
        ⟨hpath, fun h => h.1⟩
      have hunread' : p ∉ (t.after ⟨.write p data 0 ⟨fh, 2⟩, written⟩).readSince := fun h =>
        hunread (h.resolve_left id).1
      generalize t.after ⟨.write p data 0 ⟨fh, 2⟩, written⟩ = u at hhandle' hpath' hunread' ⊢
      cases fSave with
      | false => exact hend hpath' hhandle'
      | true =>
        have hflush : onStore.allows u (.flush p ⟨fh, 2⟩ : Callback) := ⟨hpath', Or.inr hunread'⟩
        refine Program.obeys_send_bind (S := Calls) (P := onStore) hflush fun saved t' ht' => ?_
        obtain ⟨-, rfl⟩ := ht'
        dsimp only
        split
        · rename_i hsaved
          refine hend ⟨hpath', fun h => h.2 hsaved⟩ ?_
          rw [Caller.handles_after rfl rfl]
          exact hhandle'
        · exact Program.obeys_pure trivial
    · exact Program.obeys_pure trivial
  · exact Program.obeys_pure trivial

namespace Copies

/-- One thread saves its file and the other one does not. -/
def editors : Bool → Program Calls Str
  | false => editFile ['/', 'a'] ['n', 'e', 'w'] true
  | true => editFile ['/', 'b'] ['x'] false

def inTurns : List Bool := (List.replicate 24 [false, true]).flatten

theorem onePath_apart : Apart exampleGlobals (⋃ i, onePath i) where
  injOn p hp q hq := by
    obtain ⟨i, hi⟩ := Set.mem_iUnion.mp hp
    obtain ⟨j, hj⟩ := Set.mem_iUnion.mp hq
    cases i <;> cases j <;> obtain rfl := hi <;> obtain rfl := hj <;> decide +kernel
  notLocal p hp q hq := by
    obtain ⟨i, hi⟩ := Set.mem_iUnion.mp hp
    obtain ⟨j, hj⟩ := Set.mem_iUnion.mp hq
    cases i <;> cases j <;> obtain rfl := hi <;> obtain rfl := hj <;> decide +kernel

theorem onePath_disjoint : Pairwise fun i j => ∀ p ∈ onePath i, p ∉ onePath j := by
  intro i j hij p hi hj
  have hne : ['/', 'a'] ≠ ['/', 'b'] := by decide
  cases i <;> cases j <;> obtain rfl := hi
  · exact hij rfl
  · exact hne hj
  · exact hne hj.symm
  · exact hij rfl

theorem twoFiles_new : NewCopies diskView exampleGlobals (⋃ i, onePath i) twoFiles where
  status _ _ := rfl
  copies _ _ := rfl
  host _ _ := rfl

theorem editors_obey (i : Bool) : (editors i).Obeys onStore
    (Caller.start (onePath i) (diskView.disk twoFiles.env).remote) fun _ _ => True := by
  cases i with
  | false => exact obeys_editFile rfl rfl id _ _
  | true => exact obeys_editFile rfl rfl id _ _

/-- The threads after their turns. -/
def edited : Pool Sys Bool (List (Event Calls) × Str) (World Copies) :=
  afterSchedule filling exampleGlobals editors inTurns twoFiles

/-- The calls of the thread that saves, with their replies. -/
def savedEvents : List (Event Calls) :=
  [⟨.open' ['/', 'a'] ⟨0, 2⟩, (⟨0, [], some 5⟩ : Reply)⟩,
    ⟨.write ['/', 'a'] ['n', 'e', 'w'] 0 ⟨5, 2⟩, (⟨3, [], none⟩ : Reply)⟩,
    ⟨.flush ['/', 'a'] ⟨5, 2⟩, (⟨0, [], none⟩ : Reply)⟩,
    ⟨.read ['/', 'a'] 3 0 ⟨5, 2⟩, (⟨3, ['n', 'e', 'w'], none⟩ : Reply)⟩]

/-- The calls of the other one. -/
def unsavedEvents : List (Event Calls) :=
  [⟨.open' ['/', 'b'] ⟨0, 2⟩, (⟨0, [], some 6⟩ : Reply)⟩,
    ⟨.write ['/', 'b'] ['x'] 0 ⟨6, 2⟩, (⟨1, [], none⟩ : Reply)⟩,
    ⟨.read ['/', 'b'] 3 0 ⟨6, 2⟩, (⟨1, ['x'], none⟩ : Reply)⟩]

instance : DecidableEq (Event Calls) := inferInstanceAs (DecidableEq (Σ _ : Callback, Reply))

theorem edited_returns :
    edited.threads false = .ret (savedEvents, ['n', 'e', 'w']) ∧
      edited.threads true = .ret (unsavedEvents, ['x']) := by
  constructor
  · exact Program.value_eq_some.mp (by decide +kernel)
  · exact Program.value_eq_some.mp (by decide +kernel)

end Copies

/-- One file is saved and the other is not. -/
example : Copies.edited.shared.env.device ['/', 'a'] = some ['n', 'e', 'w'] ∧
    Copies.edited.shared.env.device ['/', 'b'] = some ['b'] := by
  decide +kernel

end AdbncFs
