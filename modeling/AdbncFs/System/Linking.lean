import AdbncFs.Interaction.Runs
import AdbncFs.System.Callbacks

/-!
# Callbacks run one after another

`link` puts the definition of `adbncPush` in the place of its declaration. `Env.system` runs
the same code and writes down each push that is asked for; `run_link` says that writing it
down changes nothing. `Callback.step` is one call of FUSE.
-/

namespace AdbncFs

open Text Interaction

/-- `adbncPush` as `adbncfs.cpp` defines it. -/
def linkOp (g : Globals) : (op : Linked.Op) → Program Sys op.Res
  | .sys op => .send (S := Sys) op
  | .adbncPush strLocalSource strRemoteDestination =>
    adbncPushPullCmd g true strLocalSource strRemoteDestination

def link {α : Type} (g : Globals) (p : Program Linked α) : Program Sys α := p.expand (linkOp g)

section

variable {α β : Type} (g : Globals)

@[simp] theorem link_pure (a : α) : link g (pure a) = pure a := rfl

@[simp] theorem link_bind (p : Program Linked α) (f : α → Program Linked β) :
    link g (p >>= f) = link g p >>= fun a => link g (f a) := Program.expand_bind _ _ _

@[simp] theorem link_adbncPush (l r : Str) :
    link g (adbncPush l r) = adbncPushPullCmd g true l r := Program.expand_send _ _

@[simp] theorem link_liftM (p : Program Sys α) : link g (liftM p : Program Linked α) = p := by
  change (sysCalls p).expand (linkOp g) = p
  induction p with
  | ret a => rfl
  | call op k ih => exact congrArg (Program.call op) (funext ih)

@[simp] theorem link_ite (c : Prop) [Decidable c] (p q : Program Linked α) :
    link g (if c then p else q) = if c then link g p else link g q := by
  split <;> rfl

end

/-- The pushes asked for: the local source and the remote destination of each. -/
abbrev Pushes := List (Str × Str)

variable {ε α : Type} (env : Env ε) (g : Globals)

def Env.system : Handler Linked (World ε × Pushes)
  | .sys op, (w, pushes) =>
    let r := env.handle op w
    (r.1, (r.2, pushes))
  | .adbncPush l r, (w, pushes) =>
    let x := (adbncPushPullCmd g true l r).run env.handle w
    (x.1, (x.2, pushes ++ [(l, r)]))

theorem run_link (p : Program Linked α) (w : World ε) (pushes : Pushes) :
    (link g p).run env.handle w =
      ((p.run (env.system g) (w, pushes)).1, (p.run (env.system g) (w, pushes)).2.1) := by
  induction p generalizing w pushes with
  | ret a => rfl
  | call op k ih =>
    change (linkOp g op >>= fun r => link g (k r)).run env.handle w = _
    rw [Program.run_bind]
    cases op with
    | sys op => exact ih _ _ _
    | adbncPush l r => exact ih _ _ _

@[simp] theorem run_sysCalls (p : Program Sys α) (s : World ε × Pushes) :
    (sysCalls p).run (env.system g) s =
      ((p.run env.handle s.1).1, ((p.run env.handle s.1).2, s.2)) := by
  induction p generalizing s with
  | ret a => rfl
  | call op k ih => exact ih _ _

@[simp] theorem run_liftM (p : Program Sys α) (s : World ε × Pushes) :
    (liftM p : Program Linked α).run (env.system g) s =
      ((p.run env.handle s.1).1, ((p.run env.handle s.1).2, s.2)) := run_sysCalls env g p s

/-! ## Single operations -/

@[simp] theorem run_fileStatus (w : World ε) :
    fileStatus.run env.handle w = (w.fileStatus, w) := rfl

@[simp] theorem run_setFileStatus (f : FileStatus → FileStatus) (w : World ε) :
    (setFileStatus f).run env.handle w = ((), { w with fileStatus := f w.fileStatus }) := rfl

@[simp] theorem run_invalidate (p : Str) (w : World ε) :
    (invalidate p).run env.handle w =
      ((), { w with fileCache := w.fileCache.invalidate p }) := rfl

@[simp] theorem run_adbncShell (c : Command) (w : World ε) :
    (adbncShell c).run env.handle w =
      ((env.shell c w.env).1, { w with env := (env.shell c w.env).2 }) := rfl

@[simp] theorem run_syscall (c : Syscall) (w : World ε) :
    (syscall c).run env.handle w =
      ((env.syscall c w.env).1, { w with env := (env.syscall c w.env).2 }) := rfl

@[simp] theorem run_adbncPush (l r : Str) (s : World ε × Pushes) :
    (adbncPush l r).run (env.system g) s =
      (((adbncPushPullCmd g true l r).run env.handle s.1).1,
        (((adbncPushPullCmd g true l r).run env.handle s.1).2, s.2 ++ [(l, r)])) := rfl

theorem run_getStat (p : Str) (w : World ε) :
    (getStat p).run env.handle w =
      (w.fileCache.getStat p (env.time w.env).1, { w with env := (env.time w.env).2 }) := rfl

/-- The output used, from the cache or from the device, and the world after it. -/
theorem run_statOutput (p : Str) (w : World ε) :
    (statOutput p).run env.handle w =
      match w.fileCache.getStat p (env.time w.env).1 with
      | some o => (o, { w with env := (env.time w.env).2 })
      | none =>
        let r := env.shell (.stat p) (env.time w.env).2
        (r.1, { w with
          fileCache := w.fileCache.putStat p r.1 (env.time r.2).1, env := (env.time r.2).2 }) := by
  rw [statOutput, Program.run_bind, run_getStat]
  cases w.fileCache.getStat p (env.time w.env).1 <;> rfl

theorem run_execProg (argv : List Str) (fUseStdErr : Bool) (w : World ε) :
    ((execProg argv fUseStdErr).run env.handle w).2 =
      { w with env := (env.spawn argv fUseStdErr w.env).2 } := by
  have hspawn : (spawn argv fUseStdErr).run env.handle w =
      ((env.spawn argv fUseStdErr w.env).1,
        { w with env := (env.spawn argv fUseStdErr w.env).2 }) := rfl
  simp only [execProg, Program.run_bind, hspawn]
  cases (env.spawn argv fUseStdErr w.env).1 with
  | none => rfl
  | some r =>
    dsimp only
    split <;> rfl

theorem run_access (p : Str) (iMask : Nat) (w : World ε) :
    (adbnc_access g p iMask).run env.handle w =
      let r := (statOutput p).run env.handle w
      (checkAccess g p iMask (statResult true r.1).1 (statResult true r.1).2, r.2) := by
  simp only [adbnc_access, doStat, Program.run_bind, Program.run_pure]

/-- A transfer happens if and only if the access is granted. -/
theorem run_adbncPushPullCmd (fPush : Bool) (l r : Str) (w : World ε) :
    ((adbncPushPullCmd g fPush l r).run env.handle w).2 =
      let a := (adbnc_access g (if fPush then parent r else r)
        (if fPush then W_OK else R_OK)).run env.handle w
      if a.1 = 0 then { a.2 with env := (env.spawn (adbArgv fPush l r) true a.2.env).2 }
      else a.2 := by
  rw [adbncPushPullCmd, Program.run_bind]
  generalize (adbnc_access g (if fPush then parent r else r)
    (if fPush then W_OK else R_OK)).run env.handle w = a
  dsimp only
  rw [Program.run_ite]
  split
  · rw [Program.run_bind, Program.run_pure, run_execProg]
  · rfl

theorem statResult_ne_nil {fTokens : Bool} {o : Output} (h : (statResult fTokens o).1 = 0) :
    o ≠ [] := by
  rintro rfl
  rw [statResult, if_pos rfl] at h
  exact absurd h (by decide)

theorem checkAccess_zero {p : Str} {iMask : Nat} {iRes : Int} {tokens : List Str}
    (h : checkAccess g p iMask iRes tokens = 0) : iRes = 0 := by
  by_contra hne
  rw [checkAccess, if_pos hne] at h
  split at h
  · exact absurd h (by decide)
  · exact hne h

/-! ## Calls -/

/-- What a call gives: its result, and the pushes it asked for. -/
structure Outcome where
  result : Int
  pushes : Pushes
  deriving DecidableEq

def Callback.step (c : Callback) (w : World ε) : Outcome × World ε :=
  let r := (c.program g).run (env.system g) (w, [])
  (⟨r.1, r.2.2⟩, r.2.1)

/-- The calls made so far with their outcomes. -/
abbrev CallHistory := List (Callback × Outcome)

/-! ## Who changes `FileStatus` -/

/-- The operations other than `setFileStatus`. -/
def Sys.Op.KeepsStatus : Sys.Op → Prop
  | .setFileStatus _ => False
  | _ => True

theorem handle_keepsStatus {op : Sys.Op} (h : op.KeepsStatus) (w : World ε) :
    (env.handle op w).2.fileStatus = w.fileStatus := by
  cases op with
  | setFileStatus f => exact h.elim
  | _ => rfl

theorem run_keepsStatus {p : Program Sys α} (h : p.Uses (S := Sys) Sys.Op.KeepsStatus)
    (w : World ε) : (p.run env.handle w).2.fileStatus = w.fileStatus :=
  Program.run_uses (R := fun a b : World ε => b.fileStatus = a.fileStatus) (fun _ => rfl)
    (fun h₁ h₂ => h₂.trans h₁) (fun _ hop w => handle_keepsStatus env hop w) h w

/-! ## The operations of `doStat` and of a transfer -/

theorem uses_execProg {P : Sys.Op → Prop} {argv : List Str} {fUseStdErr : Bool}
    (h : P (.spawn argv fUseStdErr)) : (execProg argv fUseStdErr).Uses (S := Sys) P := by
  refine Program.uses_bind (Program.uses_send h) fun r => ?_
  cases r with
  | none => exact Program.uses_pure _
  | some x =>
    dsimp only
    split <;> exact Program.uses_pure _

theorem uses_fileExists {P : Sys.Op → Prop} {pcName : Str} (h : P (.syscall (.stat pcName))) :
    (fileExists pcName).Uses (S := Sys) P := by
  refine Program.uses_bind (Program.uses_send h) fun r => ?_
  split <;> exact Program.uses_pure _

section

variable {P : Sys.Op → Prop} (hget : ∀ p, P (.cacheGet .stat p))
  (hput : ∀ p o, P (.cachePut .stat p o))
include hget hput

theorem uses_statOutput {p : Str} (hstat : P (.shell (.stat p))) :
    (statOutput p).Uses (S := Sys) P := by
  refine Program.uses_bind (Program.uses_send (hget p)) fun output => ?_
  cases output with
  | none =>
    refine Program.uses_bind (Program.uses_send hstat) fun o => ?_
    exact Program.uses_bind (Program.uses_send (hput p o)) fun _ => Program.uses_pure _
  | some o => exact Program.uses_pure _

theorem uses_getattr {p : Str} (hstat : P (.shell (.stat p))) :
    (adbnc_getattr p).Uses (S := Sys) P :=
  Program.uses_bind (uses_statOutput hget hput hstat) fun _ => Program.uses_pure _

theorem uses_doStat {p : Str} (hstat : P (.shell (.stat p))) (fTokens : Bool) :
    (doStat p fTokens).Uses (S := Sys) P :=
  Program.uses_bind (uses_statOutput hget hput hstat) fun _ => Program.uses_pure _

theorem uses_access (g : Globals) {p : Str} (hstat : P (.shell (.stat p))) (iMask : Nat) :
    (adbnc_access g p iMask).Uses (S := Sys) P :=
  Program.uses_bind (uses_doStat hget hput hstat true) fun _ => Program.uses_pure _

theorem uses_adbncPushPullCmd (g : Globals) (fPush : Bool) (l r : Str)
    (hstat : P (.shell (.stat (if fPush then parent r else r))))
    (hspawn : P (.spawn (adbArgv fPush l r) true)) :
    (adbncPushPullCmd g fPush l r).Uses (S := Sys) P := by
  refine Program.uses_bind (uses_access hget hput g hstat _) fun iRes => ?_
  split
  · exact Program.uses_bind (uses_execProg hspawn) fun _ => Program.uses_pure _
  · exact Program.uses_pure _

/-- The part of `prepareCopy` for a file that is not marked as truncated. -/
theorem uses_pullMissing (g : Globals) {p : Str} (hstat : P (.shell (.stat p)))
    (hexists : P (.syscall (.stat p)))
    (hspawn : P (.spawn (adbArgv false (g.localPath p) p) true)) :
    (do
      let (iRes, _) ← doStat p false
      if iRes = 0 then
        if ← fileExists p then return 0 else adbncPull g p (g.localPath p)
      else return iRes : Program Sys Int).Uses (S := Sys) P := by
  refine Program.uses_bind (uses_doStat hget hput hstat false) fun r => ?_
  dsimp only
  split
  · refine Program.uses_bind (uses_fileExists hexists) fun found => ?_
    split
    · exact Program.uses_pure _
    · exact uses_adbncPushPullCmd hget hput g _ _ _ hstat hspawn
  · exact Program.uses_pure _

theorem uses_prepareCopy (g : Globals) {p : Str} (hstat : P (.shell (.stat p)))
    (hstatus : P .fileStatus) (hset : ∀ f, P (.setFileStatus f)) (hexists : P (.syscall (.stat p)))
    (hspawn : P (.spawn (adbArgv false (g.localPath p) p) true)) :
    (prepareCopy g p).Uses (S := Sys) P := by
  refine Program.uses_bind (Program.uses_send hstatus) fun s => ?_
  split
  · exact Program.uses_bind (Program.uses_send (hset _)) fun _ => Program.uses_pure _
  · exact uses_pullMissing hget hput g hstat hexists hspawn

end

theorem uses_readlink {P : Sys.Op → Prop} {p : Str} (hget : P (.cacheGet .readLink p))
    (hput : ∀ o, P (.cachePut .readLink p o)) (hshell : P (.shell (.readlink p))) (iSize : Nat) :
    (adbnc_readlink p iSize).Uses (S := Sys) P := by
  refine Program.uses_bind (Program.uses_bind (Program.uses_send hget) fun output => ?_)
    fun output => ?_
  · split
    · refine Program.uses_bind (Program.uses_send hshell) fun o => ?_
      exact Program.uses_bind (Program.uses_send (hput o)) fun _ => Program.uses_pure _
    · exact Program.uses_pure _
  · split
    · exact Program.uses_pure _
    · dsimp only
      split <;> exact Program.uses_pure _

/-! ## A host that does what it is asked -/

/-- Every call succeeds, and each path of the device is a file that everybody may use. -/
def Env.obliging : Env Unit where
  time _ := (0, ())
  shell
    | .stat p, _ => ([p ++ " 4 8 81b6 0 0 b301 17 1 0 0 1 1 1 4096".toList], ())
    | _, _ => ([], ())
  spawn _ _ _ := (some ([], 0), ())
  syscall
    | .stat _, _ => (.error ENOENT, ())
    | .open' _ _, _ => (.ok 5, ())
    | .close _, _ | .fsync _, _ | .truncate _ _, _ | .mknod _ _ _, _ | .unlink _, _ => (.ok 0, ())
    | .pread _ _ _, _ => (.ok [], ())
    | .pwrite _ data _, _ => (.ok data.length, ())

/-- A device that replies these lines to every command. -/
def Env.replying (output : Output) : Env Unit :=
  { Env.obliging with shell := fun _ _ => (output, ()) }

def exampleGlobals : Globals := ⟨"/tmp/adbncfs-a1B2c3".toList, none, none⟩

/-- The world after `initAdbncFs`. -/
def World.start : World Unit := ⟨FileCache.empty, FileStatus.empty, ()⟩

end AdbncFs
