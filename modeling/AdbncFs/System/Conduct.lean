import AdbncFs.Interaction.Protocol
import AdbncFs.System.Threads

/-!
# The conduct of the callbacks

What callbacks may do, and what `FileStatus` is in between. `Conduct.Lets` says once what each
callback does besides asking the device, and from it what holds of every operation of any number
of threads, in whatever order they are given their steps (`Conduct.threads_allow`).
-/

namespace AdbncFs

open Text Interaction

structure Conduct where
  /-- what `FileStatus` is at all times -/
  keeps : FileStatus → Prop
  /-- which operations may be done, those on `FileStatus` apart -/
  may : Sys.Op → Prop
  /-- which files may be sent to which paths of the device -/
  push : Str → Str → Prop
  /-- which paths the device may be asked about -/
  asks : Str → Prop
  /-- which names the listings of the device have -/
  lists : Str → Prop

namespace Conduct

/-- A change of `FileStatus` that keeps what it is. -/
def Marks (C : Conduct) (f : FileStatus → FileStatus) : Prop := ∀ s, C.keeps s → C.keeps (f s)

def Allows (C : Conduct) : Sys.Op → Prop
  | .fileStatus => True
  | .setFileStatus f => C.Marks f
  | op => C.may op

def Known (C : Conduct) : (op : Sys.Op) → op.Res → Prop
  | .fileStatus, (s : FileStatus) => C.keeps s
  | .shell (.ls _), (output : Output) => ∀ entry ∈ output, C.lists entry
  | _, _ => True

/-- What is known of the listings that are kept. -/
def KeepsDirs (C : Conduct) (dirs : OpenDirs) : Prop :=
  ∀ p output, dirs p = some output → ∀ entry ∈ output, C.lists entry

def sys (C : Conduct) : Protocol Sys Unit where
  allows _ op := C.Allows op
  next _ op r _ := C.Known op r

def linked (C : Conduct) : Protocol Linked Unit where
  allows
    | _, .sys op => C.Allows op
    | _, .adbncPush strLocalSource strRemoteDestination =>
      C.push strLocalSource strRemoteDestination
  next
    | _, .sys op, r, _ => C.Known op r
    | _, .adbncPush _ _, _, _ => True

def dir (C : Conduct) : Protocol DirSys Unit where
  allows
    | _, .sys op => C.Allows op
    | _, .insertDir _ output => ∀ entry ∈ output, C.lists entry
    | _, _ => True
  next
    | _, .sys op, r, _ => C.Known op r
    | _, .openDirs, (dirs : OpenDirs), _ => C.KeepsDirs dirs
    | _, _, _, _ => True

end Conduct

/-- A program keeps to a protocol without a state of its own. -/
abbrev Stays {S : Sig} {α : Type} (P : Protocol S Unit) (p : Program S α) : Prop :=
  p.Obeys P () fun _ _ => True

section

variable {S : Sig} {P : Protocol S Unit} {α β : Type}

theorem stays_pure (a : α) : Stays P (pure a) := Program.obeys_pure trivial

theorem stays_bind {p : Program S α} {f : α → Program S β} (hp : Stays P p)
    (hf : ∀ a, Stays P (f a)) : Stays P (p >>= f) := hp.bind fun a _ _ => hf a

theorem stays_send {op : S.Op} (h : P.allows () op) : Stays P (.send op) :=
  (Program.obeys_send h).mono fun _ _ _ => trivial

theorem stays_send_bind {op : S.Op} {f : S.Res op → Program S β} (h : P.allows () op)
    (hf : ∀ r, P.next () op r () → Stays P (f r)) : Stays P (.send op >>= f) :=
  Program.obeys_send_bind h fun r _ hnext => hf r hnext

theorem stays_of_uses {p : Program S α} (h : p.Uses (P.allows ())) : Stays P p := by
  induction p with
  | ret a => trivial
  | call op k ih => exact ⟨h.1, fun r _ _ => ih r (h.2 r)⟩

end

/-! ## Linked operations -/

section

variable {C : Conduct} {α β : Type}

theorem stays_sysCalls {q : Program Sys α} (h : Stays C.sys q) : Stays C.linked (sysCalls q) :=
  Program.Obeys.expand h fun _ _ hop =>
    Program.obeys_send (S := Linked) (P := C.linked) hop

theorem stays_may {op : Sys.Op} (h : C.Allows op) :
    Stays C.linked (sysCalls (.send op)) :=
  stays_sysCalls (stays_send (P := C.sys) h)

theorem stays_fileStatus_bind {f : FileStatus → Program Linked β}
    (hf : ∀ s : FileStatus, C.keeps s → Stays C.linked (f s)) :
    Stays C.linked ((liftM fileStatus : Program Linked FileStatus) >>= f) := by
  have hsend : (liftM fileStatus : Program Linked FileStatus).Obeys C.linked ()
      fun s _ => C.keeps s :=
    (Program.obeys_send (S := Linked) (P := C.linked) trivial)
  exact hsend.bind fun s _ hs => hf s hs

theorem stays_marks {f : FileStatus → FileStatus} (h : C.Marks f) :
    Stays C.linked (liftM (setFileStatus f) : Program Linked Unit) :=
  stays_sysCalls (stays_send (P := C.sys) h)

theorem stays_push {l p : Str} (h : C.push l p) : Stays C.linked (adbncPush l p) :=
  stays_send (S := Linked) (P := C.linked) h

end

/-! ## What a callback does -/

/-- The calls that name no file to be changed: those that only look, and those on a file that is
open. -/
def Syscall.NamesNone : Syscall → Prop
  | .stat _ | .close _ | .fsync _ | .pread _ _ _ | .pwrite _ _ _ => True
  | _ => False

namespace Conduct

/-- What all callbacks share. -/
structure LetsAsk (C : Conduct) : Prop where
  cacheGet : ∀ k p, C.may (.cacheGet k p)
  cachePut : ∀ k p o, C.may (.cachePut k p o)
  invalidate : ∀ p, C.may (.invalidate p)
  shell : ∀ c : Command, c.Asks → (∀ p ∈ c.paths, C.asks p) → C.may (.shell c)
  syscall : ∀ c : Syscall, c.NamesNone → C.may (.syscall c)
  /-- `adbnc_readdir` asks about the entries of a listing. -/
  entry : ∀ p entry, C.asks p → C.lists entry → C.asks (fullEntryPath p entry)

/-- The local file that a flush of a path sends. -/
def source (g : Globals) (s : FileStatus) (p : Str) : Str :=
  if (s.entry p).m_strRenamedFromLocal ≠ [] then (s.entry p).m_strRenamedFromLocal
  else g.localPath p

/-- What a callback does besides. -/
def Lets (C : Conduct) (g : Globals) : Callback → Prop
  | .getattr p | .access p _ | .readlink p _ => C.asks p
  | .open' p _ => C.asks p ∧ C.may (.spawn (adbArgv false (g.localPath p) p) true) ∧
      (∀ flags, C.may (.syscall (.open' (g.localPath p) flags))) ∧
      C.Marks (·.setTruncated p false)
  | .read p _ _ _ => C.Marks (·.setPendingOpen p true false)
  | .write p _ _ _ => C.Marks (·.setPendingOpen p true true)
  | .flush p _ => C.Marks (·.setPendingOpen p false false) ∧ C.Marks (·.modify p (·.clearRenamed)) ∧
      ∀ s, C.keeps s → (s.entry p).m_fForWrite = true → C.push (source g s p) p
  | .fsync p _ => C.push (g.localPath p) p ∧ C.Marks (·.setPendingOpen p false false)
  | .release p _ => C.Marks (·.setPendingOpen p false false)
  | .truncate p iSize => C.asks p ∧ C.may (.syscall (.truncate (g.localPath p) iSize)) ∧
      C.Marks (·.setTruncated p true)
  | .utimens p => C.may (.shell (.touch p))
  | .mknod p mode rdev => C.may (.syscall (.mknod (g.localPath p) mode rdev)) ∧
      C.push (g.localPath p) p
  | .mkdir p => C.may (.shell (.mkdir p))
  | .rename pcFrom pcTo => C.may (.shell (.mv pcFrom pcTo)) ∧
      C.Marks (·.setRenamed pcTo (g.localPath pcFrom))
  | .rmdir p => C.may (.shell (.rmdir p))
  | .unlink p => C.may (.syscall (.unlink (g.localPath p))) ∧ C.may (.shell (.rm p))

/-- The other calls of FUSE only ask. -/
def LetsCall (C : Conduct) (g : Globals) {β : Type} : FuseCall β → Prop
  | .callback c => C.Lets g c
  | .statfs p | .opendir p | .readdir p _ _ _ => C.asks p
  | .releasedir _ => True

/-- A push does no more than it is let. It asks about the directory first. -/
def LetsPush (C : Conduct) : Prop :=
  ∀ l r, C.push l r → C.asks (parent r) ∧ C.may (.spawn (adbArgv true l r) true)

end Conduct

/-! ## The callbacks -/

section

variable {C : Conduct} (hask : C.LetsAsk) {g : Globals} {p : Str}
include hask

theorem Conduct.LetsAsk.getStat (p : Str) : C.sys.allows () (.cacheGet .stat p) :=
  hask.cacheGet _ p

theorem Conduct.LetsAsk.putStat (p : Str) (o : Output) : C.sys.allows () (.cachePut .stat p o) :=
  hask.cachePut _ p o

/-- The commands with one path that only ask. -/
theorem Conduct.LetsAsk.shell_single {c : Command} (hc : c.Asks) (hpaths : c.paths = [p])
    (hp : C.asks p) : C.sys.allows () (.shell c) :=
  hask.shell c hc fun q hq => by
    rw [hpaths, List.mem_singleton] at hq
    exact hq ▸ hp

theorem Conduct.LetsAsk.stat (hp : C.asks p) : C.sys.allows () (.shell (.stat p)) :=
  hask.shell_single trivial rfl hp

theorem stays_doStat (hp : C.asks p) (fTokens : Bool) : Stays C.sys (doStat p fTokens) :=
  stays_of_uses (uses_doStat hask.getStat hask.putStat (hask.stat hp) fTokens)

theorem stays_getattr (hp : C.asks p) : Stays C.sys (adbnc_getattr p) :=
  stays_of_uses (uses_getattr hask.getStat hask.putStat (hask.stat hp))

theorem stays_access (hp : C.asks p) (iMask : Nat) : Stays C.sys (adbnc_access g p iMask) :=
  stays_of_uses (uses_access hask.getStat hask.putStat g (hask.stat hp) iMask)

theorem stays_readlink (hp : C.asks p) (iSize : Nat) : Stays C.sys (adbnc_readlink p iSize) :=
  stays_of_uses (uses_readlink (P := C.sys.allows ()) (hask.cacheGet _ p) (hask.cachePut _ p)
    (hask.shell_single trivial rfl hp) iSize)

theorem stays_invalidate (p : Str) :
    Stays C.linked (liftM (invalidate p) : Program Linked Unit) :=
  stays_sysCalls (stays_send (P := C.sys) (hask.invalidate p))

theorem stays_syscall {c : Syscall} (h : c.NamesNone) : Stays C.linked (sysCalls (syscall c)) :=
  stays_may (hask.syscall c h)

theorem stays_pullMissing (hp : C.asks p)
    (hpull : C.may (.spawn (adbArgv false (g.localPath p) p) true)) :
    Stays C.sys (do
      let (iRes, _) ← doStat p false
      if iRes = 0 then
        if ← fileExists p then return 0 else adbncPull g p (g.localPath p)
      else return iRes : Program Sys Int) :=
  stays_of_uses (uses_pullMissing hask.getStat hask.putStat g (hask.stat hp)
    (hask.syscall (.stat p) trivial) hpull)

theorem stays_open {pFi : FileInfo} (h : C.Lets g (.open' p pFi)) :
    Stays C.sys (adbnc_open g p pFi) := by
  obtain ⟨hp, hpull, hopen, htruncated⟩ := h
  have hcopy : Stays C.sys (prepareCopy g p) := by
    refine stays_send_bind trivial fun s _ => ?_
    split
    · exact stays_bind (stays_send htruncated) fun _ => stays_pure 0
    · exact stays_pullMissing hask hp hpull
  refine stays_bind hcopy fun iRes => ?_
  split
  · refine stays_send_bind (hopen _) fun r _ => ?_
    split <;> exact stays_pure _
  · exact stays_pure _

theorem stays_read {iSize : Nat} {iOffset : Int} {pFi : FileInfo}
    (h : C.Lets g (.read p iSize iOffset pFi)) :
    Stays C.linked (adbnc_read p iSize iOffset pFi) := by
  refine stays_bind (stays_marks h) fun _ => ?_
  split
  · refine stays_bind (stays_syscall hask trivial) fun r => ?_
    split <;> exact stays_pure _
  · exact stays_pure _

theorem stays_write {pcBuf : Str} {iOffset : Int} {pFi : FileInfo}
    (h : C.Lets g (.write p pcBuf iOffset pFi)) :
    Stays C.linked (adbnc_write p pcBuf iOffset pFi) := by
  refine stays_bind (stays_marks h) fun _ => stays_bind (stays_syscall hask trivial) fun r => ?_
  split <;> exact stays_pure _

omit hask in
/-- A push where the entry is for writing, then the entry is as new. -/
theorem stays_entryFlush {pFi : FileInfo} (h : C.Lets g (.flush p pFi)) {s : FileStatus}
    (hs : C.keeps s) : Stays C.linked ((s.entry p).flush p (g.localPath p)) := by
  obtain ⟨hclosed, hclear, hpush⟩ := h
  have hend : ∀ iRes : Int, Stays C.linked (do
      setFileStatus (·.modify p (·.setPendingOpen false false))
      return iRes : Program Linked Int) := fun iRes =>
    stays_bind (stays_marks hclosed) fun _ => stays_pure iRes
  have hcleared : ∀ iRes : Int, Stays C.linked (do
      setFileStatus (·.modify p (·.clearRenamed))
      setFileStatus (·.modify p (·.setPendingOpen false false))
      return iRes : Program Linked Int) := fun iRes =>
    stays_bind (stays_marks hclear) fun _ => hend iRes
  rw [FileStatus.Entry.flush]
  dsimp only
  split
  · split
    · rename_i hne
      split
      · rename_i hwrite
        have hp := hpush s hs hwrite
        rw [Conduct.source, if_pos hne] at hp
        exact stays_bind (stays_push hp) hcleared
      · exact hcleared 0
    · rename_i hempty
      split
      · rename_i hwrite
        have hp := hpush s hs hwrite
        rw [Conduct.source, if_neg hempty] at hp
        exact stays_bind (stays_push hp) hend
      · exact hend 0
  · exact stays_pure 0

theorem stays_flush {pFi : FileInfo} (h : C.Lets g (.flush p pFi)) :
    Stays C.linked (adbnc_flush g p pFi) := by
  have hstatus : Stays C.linked (FileStatus.flush p (g.localPath p)) := by
    refine stays_fileStatus_bind fun s hs => ?_
    split
    · exact stays_pure 0
    · rename_i e hentry
      have he : s.entry p = e := by rw [FileStatus.entry, hentry, Option.getD_some]
      rw [← he]
      exact stays_entryFlush h hs
  have hpending : Stays C.linked (adbnc_flush.flushPending g p) := by
    refine stays_fileStatus_bind fun s _ => ?_
    split
    · exact stays_bind (stays_invalidate hask p) fun _ => hstatus
    · exact hstatus
  refine stays_bind (stays_syscall hask trivial) fun r => ?_
  split
  · split
    · exact hpending
    · exact stays_pure _
  · exact hpending

theorem stays_fsync {pFi : FileInfo} (h : C.Lets g (.fsync p pFi)) :
    Stays C.linked (adbnc_fsync g p pFi) := by
  refine stays_bind (stays_syscall hask trivial) fun r => ?_
  split
  · exact stays_pure _
  · refine stays_fileStatus_bind fun s _ => ?_
    split
    · refine stays_bind (stays_push h.1) fun iRes => ?_
      refine stays_bind (stays_marks h.2) fun _ => ?_
      exact stays_bind (stays_invalidate hask p) fun _ => stays_pure iRes
    · exact stays_pure _

theorem stays_release {pFi : FileInfo} (h : C.Lets g (.release p pFi)) :
    Stays C.linked (adbnc_release p pFi) := by
  have hend : ∀ iRes : Int, Stays C.linked (do
      setFileStatus (·.modify p (·.setPendingOpen false false))
      return iRes : Program Linked Int) := fun iRes =>
    stays_bind (stays_marks h) fun _ => stays_pure iRes
  refine stays_fileStatus_bind fun s _ => ?_
  split
  · exact stays_pure 0
  · rw [FileStatus.Entry.release]
    dsimp only
    split
    · refine stays_bind (stays_syscall hask trivial) fun r => ?_
      split <;> exact hend _
    · exact hend _

theorem stays_truncate {iSize : Int} (h : C.Lets g (.truncate p iSize)) :
    Stays C.linked (adbnc_truncate g p iSize) := by
  obtain ⟨hp, htruncate, hmark⟩ := h
  refine stays_bind (stays_sysCalls (stays_doStat hask hp false)) fun r => ?_
  dsimp only
  split
  · refine stays_bind (stays_may htruncate) fun r => ?_
    split
    · refine stays_bind (stays_marks hmark) fun _ => ?_
      exact stays_bind (stays_invalidate hask p) fun _ => stays_pure 0
    · exact stays_pure _
  · exact stays_pure _

theorem stays_mknod {mode rdev : Nat} (h : C.Lets g (.mknod p mode rdev)) :
    Stays C.linked (adbnc_mknod g p mode rdev) := by
  obtain ⟨hmknod, hpush⟩ := h
  refine stays_bind (stays_may hmknod) fun r => ?_
  split
  · exact stays_pure _
  · refine stays_bind (stays_push hpush) fun iRes => ?_
    have hrest : Stays C.linked (do
        invalidate p
        return iRes : Program Linked Int) :=
      stays_bind (stays_invalidate hask p) fun _ => stays_pure iRes
    split
    · exact stays_bind (stays_may (hask.shell .sync trivial nofun)) fun _ => hrest
    · exact hrest

theorem stays_rename {pcFrom pcTo : Str} (h : C.Lets g (.rename pcFrom pcTo)) :
    Stays C.linked (adbnc_rename g pcFrom pcTo) := by
  refine stays_bind (stays_may h.1) fun _ => stays_bind (stays_invalidate hask pcTo) fun _ => ?_
  refine stays_bind (stays_invalidate hask pcFrom) fun _ => stays_fileStatus_bind fun s _ => ?_
  split
  · exact stays_bind (stays_marks h.2) fun _ => stays_pure 0
  · exact stays_pure 0

theorem stays_program {c : Callback} (hc : C.Lets g c) : Stays C.linked (c.program g) := by
  have hchange : ∀ p (c : Command), C.may (.shell c) → Stays C.linked (do
      invalidate p
      let _ ← adbncShell c
      return 0 : Program Linked Int) := fun p c h =>
    stays_bind (stays_invalidate hask p) fun _ => stays_bind (stays_may h) fun _ => stays_pure 0
  cases c with
  | getattr p =>
    exact stays_bind (stays_sysCalls (stays_getattr hask hc)) fun _ => stays_pure _
  | access p iMask => exact stays_sysCalls (stays_access hask hc iMask)
  | readlink p n =>
    exact stays_bind (stays_sysCalls (stays_readlink hask hc n)) fun _ => stays_pure _
  | open' p pFi => exact stays_bind (stays_sysCalls (stays_open hask hc)) fun _ => stays_pure _
  | read p n o pFi => exact stays_bind (stays_read hask hc) fun _ => stays_pure _
  | write p b o pFi => exact stays_write hask hc
  | flush p pFi => exact stays_flush hask hc
  | fsync p pFi => exact stays_fsync hask hc
  | release p pFi => exact stays_release hask hc
  | truncate p n => exact stays_truncate hask hc
  | utimens p => exact hchange p _ hc
  | mknod p mode rdev => exact stays_mknod hask hc
  | mkdir p => exact hchange p _ hc
  | rename pcFrom pcTo => exact stays_rename hask hc
  | rmdir p => exact hchange p _ hc
  | unlink p =>
    refine stays_bind (stays_invalidate hask p) fun _ => stays_bind (stays_may hc.1) fun _ => ?_
    exact stays_bind (stays_may hc.2) fun _ => stays_pure 0

end

/-! ## Calls and threads -/

section

variable {C : Conduct} (hask : C.LetsAsk) {g : Globals} {α β : Type}
include hask

theorem stays_statfs {p : Str} (hp : C.asks p) : Stays C.sys (adbnc_statfs p) := by
  rw [adbnc_statfs]
  split
  · refine stays_bind (stays_send (hask.shell_single (c := .dfBlocks p) trivial rfl hp)) fun o => ?_
    dsimp only
    split
    · exact stays_bind (stays_send (hask.shell_single (c := .dfInodes p) trivial rfl hp))
        fun _ => stays_pure _
    · exact stays_pure _
  · exact stays_pure _

theorem stays_readdir {dirs : OpenDirs} (hdirs : C.KeepsDirs dirs) {p : Str} (hp : C.asks p)
    (b : β) (filler : Filler β) (o : Int) :
    Stays C.sys (adbnc_readdir dirs p b filler o) := by
  have hloop : ∀ n i entries b, (∀ entry ∈ entries, C.lists entry) →
      Stays C.sys (adbnc_readdir.loop p filler o n i entries b) := by
    intro n i entries b hlists
    induction entries generalizing i b with
    | nil => exact stays_pure _
    | cons entry entries ih =>
      have hentry := hask.entry p entry hp (hlists entry List.mem_cons_self)
      have ih := fun i b => ih i b fun entry h => hlists entry (List.mem_cons_of_mem _ h)
      rw [adbnc_readdir.loop]
      split
      · split
        · exact ih _ _
        · split
          · exact ih _ _
          · refine stays_bind (stays_getattr hask hentry) fun r => ?_
            dsimp only
            split
            · exact ih _ _
            · split
              · exact stays_pure _
              · exact ih _ _
      · exact stays_pure _
  rw [adbnc_readdir]
  split
  · exact stays_pure _
  · rename_i output houtput
    exact stays_bind (hloop _ _ _ _ (hdirs p output houtput)) fun _ => stays_pure _

omit hask in
theorem obeys_locked {q : Program Sys α} {Q : α → Unit → Prop} (h : q.Obeys C.sys () Q) :
    (alone (locked q)).Obeys C.dir () Q := by
  have halone : alone (locked q) = q.expand _ := alone_expand alone_lockedOp q
  rw [halone]
  exact h.expand fun _ op hop => Program.obeys_send (S := DirSys) (P := C.dir) hop

/-- What is inserted is what the device has listed. -/
theorem stays_opendir {p : Str} (hp : C.asks p) : Stays C.dir (alone (threadedOpendir p)) := by
  have hdir : ∀ op : DirSys.Op, C.dir.allows () op → Stays C.dir (.send op) := fun _ h =>
    stays_send (S := DirSys) (P := C.dir) h
  have hlist : (adbncShell (.ls p)).Obeys C.sys () fun output _ =>
      ∀ entry ∈ output, C.lists entry :=
    Program.obeys_send (S := Sys) (P := C.sys) (hask.shell_single trivial rfl hp)
  rw [threadedOpendir, alone_exclusive]
  simp only [alone_bind, alone_await, alone_ite, alone_pure, pure_bind]
  refine (obeys_locked hlist).bind fun output _ hlists => ?_
  split
  · refine stays_bind (hdir .openDirs trivial) fun dirs => ?_
    split
    · exact stays_bind (hdir (.insertDir _ _) hlists) fun _ => stays_pure _
    · exact stays_pure _
  · exact stays_pure _

/-- A push checks the parent and starts the transfer of the local file. -/
theorem stays_link (hpush : C.LetsPush) {q : Program Linked α} (h : Stays C.linked q) :
    Stays C.sys (link g q) := by
  refine h.expand fun _ op hop => ?_
  cases op with
  | sys op => exact Program.obeys_send (S := Sys) (P := C.sys) hop
  | adbncPush l r =>
    obtain ⟨hparent, hspawn⟩ := hpush l r hop
    have hcmd : Stays C.sys (adbncPushPullCmd g true l r) :=
      stays_of_uses (uses_adbncPushPullCmd hask.getStat hask.putStat g true l r
        (hask.stat hparent) hspawn)
    exact hcmd.mono fun _ _ h => h

variable (hpush : C.LetsPush)
include hpush

theorem stays_call {c : FuseCall β} (hc : C.LetsCall g c) :
    Stays C.dir (alone (c.threaded g)) := by
  cases c with
  | callback c =>
    have halone := alone_callback g c
    change Stays C.dir (alone (c.threaded g))
    rw [halone]
    exact obeys_locked (stays_link hask hpush (stays_program hask hc))
  | statfs p => exact obeys_locked (stays_statfs hask hc)
  | opendir p => exact stays_opendir hask hc
  | readdir p b filler o =>
    exact stays_send_bind (S := DirSys) (P := C.dir) trivial
      fun dirs hdirs => obeys_locked (stays_readdir hask hdirs hc b filler o)
  | releasedir p =>
    have halone : alone (threadedReleasedir p) =
        Program.send (S := DirSys) (.eraseDir p) >>= fun _ => pure 0 := rfl
    change Stays C.dir (alone (threadedReleasedir p))
    rw [halone]
    exact stays_bind (stays_send trivial) fun _ => stays_pure 0

theorem stays_thread {calls : Program (Fuse β) α}
    (hcalls : calls.Uses (S := Fuse β) (C.LetsCall g)) :
    Stays C.dir (alone (fuseThread g calls)) := by
  have halone : alone (fuseThread g calls) =
      calls.expand fun c : FuseCall β => alone (c.threaded g) := alone_expand (fun _ => rfl) calls
  rw [halone]
  clear halone
  induction calls with
  | ret a => exact stays_pure a
  | call c k ih => exact stays_bind (stays_call hask hpush hcalls.1) fun r => ih r (hcalls.2 r)

/-! ## Every interleaving -/

variable {ε ι : Type} [DecidableEq ι]

/-- `FileStatus` and the listings are as they are to be. -/
def Conduct.Keeps (C : Conduct) (x : World ε × OpenDirs) : Prop :=
  C.keeps x.1.fileStatus ∧ C.KeepsDirs x.2

omit hask hpush in
/-- A listing that is kept was kept before or is the one inserted. -/
theorem listed_insertDir {env : Env ε} {x : World ε × OpenDirs} {p q : Str}
    {output output' : Output}
    (h : (env.directories (.insertDir p output) x).2.2 q = some output') :
    x.2 q = some output' ∨ output' = output := by
  obtain ⟨w, dirs⟩ := x
  rw [Env.directories] at h
  dsimp only at h
  cases hlisted : dirs p with
  | some _ =>
    rw [hlisted] at h
    exact Or.inl h
  | none =>
    rw [hlisted] at h
    by_cases hq : q = p
    · rw [hq] at h
      exact Or.inr (Option.some.inj ((Function.update_self p _ dirs).symm.trans h)).symm
    · exact Or.inl ((Function.update_of_ne hq _ dirs).symm.trans h)

omit hask hpush in
theorem Conduct.keeps_step {env : Env ε}
    (hlists : ∀ p e, ∀ entry ∈ (env.shell (.ls p) e).1, C.lists entry)
    {x : World ε × OpenDirs} (hx : C.Keeps x) {op : DirSys.Op} (hop : C.dir.allows () op) :
    C.dir.next () op (env.directories op x).1 () ∧ C.Keeps (env.directories op x).2 := by
  obtain ⟨hstatus, hdirs⟩ := hx
  cases op with
  | sys op =>
    cases op with
    | fileStatus => exact ⟨hstatus, hstatus, hdirs⟩
    | setFileStatus f => exact ⟨trivial, hop _ hstatus, hdirs⟩
    | shell command =>
      cases command with
      | ls p => exact ⟨hlists p x.1.env, hstatus, hdirs⟩
      | _ => exact ⟨trivial, hstatus, hdirs⟩
    | _ => exact ⟨trivial, hstatus, hdirs⟩
  | openDirs => exact ⟨hdirs, hstatus, hdirs⟩
  | insertDir p output =>
    refine ⟨trivial, hstatus, fun q output' hq => ?_⟩
    rcases listed_insertDir hq with hlisted | rfl
    · exact hdirs q output' hlisted
    · exact hop
  | eraseDir p =>
    refine ⟨trivial, hstatus, fun q output' hq => ?_⟩
    change Function.update x.2 p none q = some output' at hq
    by_cases hqp : q = p
    · rw [hqp, Function.update_self] at hq
      cases hq
    · rw [Function.update_of_ne hqp] at hq
      exact hdirs q output' hq

/-- Whatever calls the threads make and however their operations are interleaved, they do only
what they may. -/
theorem Conduct.threads_allow (env : Env ε) {calls : ι → Program (Fuse β) α}
    (hlists : ∀ p e, ∀ entry ∈ (env.shell (.ls p) e).1, C.lists entry)
    (hcalls : ∀ i, (calls i).Uses (S := Fuse β) (C.LetsCall g))
    {start : World ε × OpenDirs} (hstart : C.Keeps start) (is : List ι) :
    ∀ i (e : Event Sys), (i, (⟨.sys e.1, e.2⟩ : Event DirSys)) ∈
      (Pool.exec env.directories is ⟨fun i => alone (fuseThread g (calls i)), start⟩).1 →
        C.Allows e.1 := by
  intro i e he
  obtain ⟨t, -, -, hfollows⟩ := Pool.exec_obeys (fun _ => C.dir)
    (fun _ (x : World ε × OpenDirs) => C.Keeps x)
    (fun _ _ _ _ hx hop => ⟨(), Conduct.keeps_step hlists hx hop⟩) is
    (c := ⟨fun i => alone (fuseThread g (calls i)), start⟩) (s := fun _ => ()) hstart
    fun i => stays_thread hask hpush (hcalls i)
  obtain ⟨s, hallows⟩ := (hfollows i).allows (mem_proj.mpr he)
  exact hallows

end

end AdbncFs
