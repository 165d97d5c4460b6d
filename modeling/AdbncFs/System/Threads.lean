import Mathlib.Order.Basic
import Mathlib.Order.RelClasses
import AdbncFs.Interaction.Locks
import AdbncFs.System.Directories
import AdbncFs.System.Statfs

/-!
# The threads of FUSE

FUSE calls the callbacks from several threads. They share the caches, the state of the files
and the map `openDirs`, and keep apart by three mutexes: `execCommandViaNetCat` holds
`ncCmdMutex` for the time of a command, `adbnc_open` holds `openMutex` and `adbnc_opendir` and
`adbnc_releasedir` hold `inReleaseDirMutex` from their beginning to their end. `adbnc_opendir`
waits as long as `fInReleaseDirCond` is up; `adbnc_releasedir` raises it, signals
`inReleaseDirCond` and takes it back, all under the mutex. No other callback locks a mutex
of its own.

`ncCmdMutex` is above the two others, which no thread holds together. So the callbacks are
orderly (`orderly_threaded`), and threads that call them in any order never come to a deadlock
(`threads_go_on`). `run_alone_threaded` says that a thread that is alone does what the callbacks
do without mutexes.
-/

namespace AdbncFs

open Text Interaction Function

inductive Mutex
  | openMutex
  | inReleaseDirMutex
  | ncCmdMutex
  deriving DecidableEq

/-- A condition variable with its flag: `inReleaseDirCond` with `fInReleaseDirCond`. -/
inductive Condition
  | inReleaseDirCond
  deriving DecidableEq

namespace Mutex

/-- The level at which a mutex is locked. -/
def level : Mutex → Nat
  | openMutex | inReleaseDirMutex => 0
  | ncCmdMutex => 1

instance : Preorder Mutex := Preorder.lift level

theorem level_le (m : Mutex) : m.level ≤ 1 := by cases m <;> decide

theorem lt_ncCmdMutex {m : Mutex} (hm : m ≠ ncCmdMutex) : m < ncCmdMutex := by
  cases m with
  | ncCmdMutex => exact absurd rfl hm
  | _ => exact Nat.zero_lt_one

instance : WellFoundedGT Mutex where
  wf := Subrelation.wf
    (fun {m n} (h : n.level < m.level) => by
      have := m.level_le
      change 1 - m.level < 1 - n.level
      omega)
    (measure fun m : Mutex => 1 - m.level).wf

end Mutex

/-- The mutex with which a condition variable is used. -/
def Condition.guard : Condition → Mutex
  | inReleaseDirCond => .inReleaseDirMutex

/-! ## The operations of the threads -/

inductive DirSys.Op
  | sys (op : Sys.Op)
  /-- read `openDirs` -/
  | openDirs
  /-- `openDirs.insert` -/
  | insertDir (pcPath : Str) (output : Output)
  /-- `openDirs.erase` -/
  | eraseDir (pcPath : Str)

def DirSys.Op.Res : DirSys.Op → Type
  | .sys op => op.Res
  | .openDirs => OpenDirs
  | .insertDir _ _ | .eraseDir _ => Unit

/-- The operations of the callbacks, with those on the map `openDirs`. -/
def DirSys : Sig := ⟨DirSys.Op, DirSys.Op.Res⟩

abbrev Threaded := Program (Sync Mutex Condition DirSys)

def openDirs : Threaded OpenDirs := act (S := DirSys) .openDirs

def insertDir (pcPath : Str) (output : Output) : Threaded Unit :=
  act (S := DirSys) (.insertDir pcPath output)

def eraseDir (pcPath : Str) : Threaded Unit := act (S := DirSys) (.eraseDir pcPath)

/-- An operation with the mutex of `execCommandViaNetCat`. -/
def lockedOp : (op : Sys.Op) → Threaded op.Res
  | .shell command => exclusive .ncCmdMutex (act (S := DirSys) (.sys (.shell command)))
  | op => act (S := DirSys) (.sys op)

def locked {α : Type} (p : Program Sys α) : Threaded α := p.expand lockedOp

/-! ## The callbacks -/

/-- A call of FUSE. -/
inductive FuseCall (β : Type)
  | callback (c : Callback)
  | statfs (pcPath : Str)
  | opendir (pcPath : Str)
  | readdir (pcPath : Str) (vpBuf : β) (filler : Filler β) (iOffset : Int)
  | releasedir (pcPath : Str)

def FuseCall.Res {β : Type} : FuseCall β → Type
  | .statfs _ => Int × StatVfs
  | .readdir .. => Int × β
  | _ => Int

/-- The calls of FUSE as the operations of its threads. -/
def Fuse (β : Type) : Sig := ⟨FuseCall β, FuseCall.Res⟩

/-- A callback with its mutexes. -/
def Callback.threaded (g : Globals) (c : Callback) : Threaded Int :=
  match c with
  | .open' _ _ => exclusive .openMutex (locked (link g (c.program g)))
  | _ => locked (link g (c.program g))

/-- `adbnc_opendir` with its mutex. -/
def threadedOpendir (pcPath : Str) : Threaded Int := exclusive .inReleaseDirMutex do
  await .inReleaseDirCond .inReleaseDirMutex
  let output ← locked (adbncShell (.ls pcPath))
  if output ≠ [] then
    match (← openDirs) pcPath with
    | none => do
      insertDir pcPath output
      return 0
    | some _ => return 0
  else return - EIO

/-- `adbnc_releasedir` with its mutex. -/
def threadedReleasedir (pcPath : Str) : Threaded Int := exclusive .inReleaseDirMutex do
  setFlag .inReleaseDirCond true
  eraseDir pcPath
  signal .inReleaseDirCond
  setFlag .inReleaseDirCond false
  return 0

/-- `adbnc_readdir`, which looks its listing up without a mutex. -/
def threadedReaddir {β : Type} (pcPath : Str) (vpBuf : β) (filler : Filler β) (iOffset : Int) :
    Threaded (Int × β) := do
  locked (adbnc_readdir (← openDirs) pcPath vpBuf filler iOffset)

def FuseCall.threaded {β : Type} (g : Globals) : (c : FuseCall β) → Threaded c.Res
  | .callback c => c.threaded g
  | .statfs pcPath => locked (adbnc_statfs pcPath)
  | .opendir pcPath => threadedOpendir pcPath
  | .readdir pcPath vpBuf filler iOffset => threadedReaddir pcPath vpBuf filler iOffset
  | .releasedir pcPath => threadedReleasedir pcPath

/-! ## A thread that is alone -/

section

variable {ε α β : Type} (env : Env ε) (g : Globals)

/-- The operations on `openDirs`, beside those on the world. An insertion keeps what is
there. -/
def Env.directories : Handler DirSys (World ε × OpenDirs)
  | .sys op, (w, openDirs) =>
    let r := env.handle op w
    (r.1, (r.2, openDirs))
  | .openDirs, s => (s.2, s)
  | .insertDir pcPath output, (w, openDirs) =>
    ((), (w, match openDirs pcPath with
      | none => update openDirs pcPath (some output)
      | some _ => openDirs))
  | .eraseDir pcPath, (w, openDirs) => ((), (w, update openDirs pcPath none))

/-- What a call gives when no other thread runs. -/
def FuseCall.alone : (c : FuseCall β) → World ε × OpenDirs → c.Res × (World ε × OpenDirs)
  | .callback c, (w, openDirs) =>
    let r := c.step env g w
    (r.1.result, (r.2, openDirs))
  | .statfs pcPath, (w, openDirs) =>
    let r := (adbnc_statfs pcPath).run env.handle w
    (r.1, (r.2, openDirs))
  | .opendir pcPath, (w, openDirs) =>
    let r := (adbnc_opendir openDirs pcPath).run env.handle w
    (r.1.1, (r.2, r.1.2))
  | .readdir pcPath vpBuf filler iOffset, (w, openDirs) =>
    let r := (adbnc_readdir openDirs pcPath vpBuf filler iOffset).run env.handle w
    (r.1, (r.2, openDirs))
  | .releasedir pcPath, (w, openDirs) =>
    let r := adbnc_releasedir openDirs pcPath
    (r.1, (w, r.2))

theorem alone_lockedOp (op : Sys.Op) :
    Interaction.alone (lockedOp op) = Program.send (S := DirSys) (.sys op) := by
  cases op <;> rfl

@[simp] theorem run_alone_locked (p : Program Sys α) (w : World ε) (dirs : OpenDirs) :
    (Interaction.alone (locked p)).run env.directories (w, dirs) =
      ((p.run env.handle w).1, ((p.run env.handle w).2, dirs)) := by
  have halone : Interaction.alone (locked p) = p.expand _ := alone_expand alone_lockedOp p
  rw [halone]
  clear halone
  induction p generalizing w with
  | ret a => rfl
  | call op k ih => exact ih _ _

theorem alone_callback (c : Callback) :
    Interaction.alone (c.threaded g) = Interaction.alone (locked (link g (c.program g))) := by
  cases c with
  | open' p pFi => exact alone_exclusive _ _
  | _ => rfl

theorem run_alone_callback (c : Callback) (w : World ε) (dirs : OpenDirs) :
    (Interaction.alone (c.threaded g)).run env.directories (w, dirs) =
      ((c.step env g w).1.result, ((c.step env g w).2, dirs)) := by
  rw [alone_callback, run_alone_locked, run_link env g (c.program g) w []]
  rfl

theorem run_alone_opendir (p : Str) (w : World ε) (dirs : OpenDirs) :
    (Interaction.alone (threadedOpendir p)).run env.directories (w, dirs) =
      let r := (adbnc_opendir dirs p).run env.handle w
      (r.1.1, (r.2, r.1.2)) := by
  have hread : ∀ s, (Interaction.alone openDirs).run env.directories s = (s.2, s) := fun _ => rfl
  rw [threadedOpendir, alone_exclusive]
  simp only [alone_bind, alone_await, alone_ite, Program.run_bind, Program.run_ite, pure_bind,
    run_alone_locked, run_adbncShell, hread]
  rw [adbnc_opendir, Program.run_bind, run_adbncShell]
  dsimp only
  rw [Program.run_ite]
  by_cases hout : (env.shell (.ls p) w.env).1 ≠ []
  · rw [if_pos hout, if_pos hout]
    cases hdir : dirs p with
    | none =>
      have hinsert : ∀ o w', (Interaction.alone (insertDir p o)).run env.directories (w', dirs) =
          ((), (w', update dirs p (some o))) := by
        intro o w'
        change ((), (w', match dirs p with
          | none => update dirs p (some o)
          | some _ => dirs)) = _
        rw [hdir]
      dsimp only
      rw [alone_bind, Program.run_bind, hinsert]
      rfl
    | some o => rfl
  · rw [if_neg hout, if_neg hout]
    rfl

/-- Without other threads the mutexes change nothing. -/
theorem run_alone_threaded (c : FuseCall β) (w : World ε) (dirs : OpenDirs) :
    (Interaction.alone (c.threaded g)).run env.directories (w, dirs) =
      c.alone env g (w, dirs) := by
  cases c with
  | callback c => exact run_alone_callback env g c w dirs
  | statfs p => exact run_alone_locked env (adbnc_statfs p) w dirs
  | opendir p => exact run_alone_opendir env p w dirs
  | readdir p b filler o => exact run_alone_locked env (adbnc_readdir dirs p b filler o) w dirs
  | releasedir p => rfl

end

/-! ## The order of the mutexes -/

section

variable {α β : Type} (g : Globals) {ms : Set Mutex}

theorem orderly_lockedOp (hms : ∀ m ∈ ms, m < .ncCmdMutex) (op : Sys.Op) :
    Orderly Condition.guard (.only ms) (lockedOp op) (.only ms) := by
  cases op with
  | shell command => exact orderly_exclusive hms (orderly_act _)
  | _ => exact orderly_act _

/-- Below `ncCmdMutex` every command can be sent. -/
theorem orderly_locked (hms : ∀ m ∈ ms, m < .ncCmdMutex) (p : Program Sys α) :
    Orderly Condition.guard (.only ms) (locked p) (.only ms) :=
  orderly_expand (orderly_lockedOp hms) p

theorem none_below (n : Mutex) : ∀ m ∈ (∅ : Set Mutex), m < n :=
  fun _ hm => absurd hm (Set.notMem_empty _)

/-- A callback that locks a mutex of its own locks no other one but `ncCmdMutex`. -/
theorem only_below {m : Mutex} (hm : m ≠ .ncCmdMutex) :
    ∀ n ∈ insert m (∅ : Set Mutex), n < .ncCmdMutex := by
  intro n hn
  obtain rfl := (Set.mem_insert_iff.mp hn).resolve_right (Set.notMem_empty n)
  exact Mutex.lt_ncCmdMutex hm

theorem orderly_callback (c : Callback) :
    Orderly Condition.guard (.only ∅) (c.threaded g) (.only ∅) := by
  cases c with
  | open' p pFi =>
    exact orderly_exclusive (none_below _) (orderly_locked (only_below (by decide)) _)
  | _ => exact orderly_locked (none_below _) _

theorem orderly_opendir (p : Str) :
    Orderly Condition.guard (.only ∅) (threadedOpendir p) (.only ∅) := by
  refine orderly_exclusive (none_below _) ?_
  refine orderly_bind (orderly_await (x := Condition.inReleaseDirCond) (Set.mem_insert _ _)
    (Set.notMem_empty _)) fun _ => ?_
  refine orderly_bind (orderly_locked (only_below (by decide)) _) fun output => ?_
  split
  · refine orderly_bind (orderly_act _) fun dirs => ?_
    cases hdir : dirs p with
    | none => exact orderly_bind (orderly_act _) fun _ => orderly_pure _
    | some listing => exact orderly_pure _
  · exact orderly_pure _

/-- The flag is taken back before the mutex is unlocked. -/
theorem orderly_releasedir (p : Str) :
    Orderly Condition.guard (.only ∅) (threadedReleasedir p) (.only ∅) := by
  refine orderly_exclusive (none_below _) ?_
  refine orderly_bind (orderly_raise (Set.mem_insert _ _)) fun _ => ?_
  refine orderly_bind (orderly_act _) fun _ => ?_
  refine orderly_bind (orderly_signal _) fun _ => ?_
  refine orderly_bind (orderly_lower (Set.mem_insert _ _)) fun _ => ?_
  exact congrArg (Holding.mk _) (Set.insert_sdiff_self_of_notMem (Set.notMem_empty _))

theorem orderly_readdir (p : Str) (b : β) (filler : Filler β) (o : Int) :
    Orderly Condition.guard (.only ∅) (threadedReaddir p b filler o) (.only ∅) :=
  orderly_bind (orderly_act _) fun _ => orderly_locked (none_below _) _

theorem orderly_threaded (c : FuseCall β) :
    Orderly Condition.guard (.only ∅) (c.threaded g) (.only ∅) := by
  cases c with
  | callback c => exact orderly_callback g c
  | statfs p => exact orderly_locked (none_below _) (adbnc_statfs p)
  | opendir p => exact orderly_opendir p
  | readdir p b filler o => exact orderly_readdir p b filler o
  | releasedir p => exact orderly_releasedir p

end

/-! ## Every run of the threads -/

/-- A thread, by the calls that it makes. -/
def fuseThread {α β : Type} (g : Globals) (calls : Program (Fuse β) α) : Threaded α :=
  calls.expand (FuseCall.threaded g)

/-- Whatever calls the threads make, whatever their operations answer, and in whatever order
they are given their steps: as long as one has not finished, one of these is not blocked and
has a step to do, and none sleeps. -/
theorem threads_go_on {ι α β σ : Type} [DecidableEq ι] (g : Globals) (h : Handler DirSys σ)
    (calls : ι → Program (Fuse β) α) (shared : σ) {c : Threads Mutex Condition DirSys ι α σ}
    (hreach : Threads.Reaches h (Threads.start (fun i => fuseThread g (calls i)) shared) c) :
    ((∃ i, c.Unfinished i) →
      ∃ i, c.Unfinished i ∧ ¬ c.Blocked i ∧ ∃ c', Threads.Step h i c c') ∧
    (c.owner .inReleaseDirMutex = none → c.flag .inReleaseDirCond = false) ∧
    ∀ i, c.mode i ≠ .sleeping := by
  have hstart : OrderlyThreads Condition.guard (fun _ => .only ∅)
      (Threads.start (fun i => fuseThread g (calls i)) shared) :=
    .of_start (fun i => orderly_expand (orderly_threaded g) (calls i)) shared
  obtain ⟨s, hc⟩ := hstart.reaches hreach
  refine ⟨?_, fun hfree => hc.flag_of_free (x := .inReleaseDirCond) hfree, fun i => ?_⟩
  · rintro ⟨i, hi⟩
    obtain ⟨j, hj, hfree⟩ := hc.exists_not_blocked hi
    exact ⟨j, hj, hfree, hc.exists_step h hj hfree⟩
  · rw [hc.running]
    decide

/-! ### One thread opens a directory and another one releases it -/

/-- The calls of the two threads. -/
def openAndRelease : Bool → Program (Fuse Unit) Int
  | false => .send (S := Fuse Unit) (.opendir ['/'])
  | true => .send (S := Fuse Unit) (.releasedir ['/'])

abbrev TwoThreads := Threads Mutex Condition DirSys Bool Int (World Unit × OpenDirs)

def TwoThreads.start : TwoThreads :=
  Threads.start (fun i => fuseThread ⟨"/tmp".toList, none, none⟩ (openAndRelease i))
    (World.start, fun _ => none)

/-- The first thread has locked `inReleaseDirMutex`, for which the second one waits. -/
theorem threads_go_on_contended :
    ∃ c, Threads.Reaches Env.obliging.directories TwoThreads.start c ∧
      c.owner .inReleaseDirMutex = some false ∧ c.Blocked true ∧
        ∃ i, c.Unfinished i ∧ ¬ c.Blocked i ∧
          ∃ c', Threads.Step Env.obliging.directories i c c' := by
  obtain ⟨k, hopen⟩ : ∃ k, TwoThreads.start.At false (.lock .inReleaseDirMutex) k := ⟨_, rfl⟩
  obtain ⟨l, hrelease⟩ : ∃ l, TwoThreads.start.At true (.lock .inReleaseDirMutex) l := ⟨_, rfl⟩
  have hstep := Threads.Step.lock (h := Env.obliging.directories) hopen rfl rfl
  have hwait : update TwoThreads.start.program false (k ()) true =
      TwoThreads.start.program true := update_of_ne (by decide) _ _
  have hwaiting := hwait.trans hrelease
  have hgo := threads_go_on ⟨"/tmp".toList, none, none⟩ Env.obliging.directories openAndRelease
    (World.start, fun _ => none) (.single ⟨false, hstep⟩)
  refine ⟨_, .single ⟨false, hstep⟩, ?_, ?_, hgo.1 ⟨true, _, _, hwaiting⟩⟩
  · rfl
  · exact .lock hwaiting rfl (Option.some_ne_none false)

end AdbncFs
