import AdbncFs.Contents.Disk
import AdbncFs.Interaction.Protocol

/-!
# What a caller sees of its files

A caller that works on files of its own sees `FileStatus` and the disk as if nobody else used
them. `seen` is what it may do with these files, and what the answers tell it. Every operation
may fail. The lemmas are about the operations that the callbacks share: those that only ask, the
transfers and those on `FileStatus`.
-/

namespace AdbncFs

open Text Interaction Function

structure View where
  status : FileStatus
  disk : Disk

namespace View

def modify (x : View) (p : Str) (u : FileStatus.Entry → FileStatus.Entry) : View :=
  { x with status := x.status.modify p u }

def put (x : View) (l : Str) (c : Option Str) : View := { x with disk := x.disk.put l c }

def push (x : View) (p : Str) (c : Option Str) : View := { x with disk := x.disk.push p c }

def setHandle (x : View) (fh : Int) (l : Option Str) : View :=
  { x with disk := x.disk.setHandle fh l }

end View

/-! ## The protocol -/

variable (g : Globals) (S : Set Str)

/-- A system call on the files of these paths. -/
def Syscall.Mine (x : View) : Syscall → Prop
  | .stat _ | .fsync _ => True
  | .open' path flags => (∃ p ∈ S, path = g.localPath p) ∧ FileInfo.Plain ⟨-1, flags⟩
  | .close fd => x.disk.handle fd ≠ none
  | .pread fd _ _ | .pwrite fd _ _ =>
    ∃ l c, x.disk.handle fd = some l ∧ x.disk.content l = some c
  | .mknod path mode _ => (∃ p ∈ S, path = g.localPath p) ∧ IsRegular mode
  | .truncate _ _ | .unlink _ => False

/-- What its answer tells, and what it has made of the disk. -/
def Syscall.Tells : (call : Syscall) → call.Res → Disk → Disk → Prop
  | .stat path, r, d, d' =>
    d' = d ∧ (path ∈ S → Gives (fun _ => d.content path ≠ none) True r)
  | .fsync _, r, d, d' => d' = d ∧ Gives (fun _ => True) True r
  | .open' path _, r, d, d' =>
    Gives (fun fh => d.content path ≠ none ∧ d.handle fh = none ∧
      d' = d.setHandle fh (some path)) (d' = d) r
  | .close fd, _, d, d' => d' = d.setHandle fd none
  | .pread fd n off, r, d, d' =>
    d' = d ∧ ∀ l c, d.handle fd = some l → d.content l = some c →
      Gives (fun data => data = slice n off c) True r
  | .pwrite fd data off, r, d, d' =>
    ∀ l c, d.handle fd = some l → d.content l = some c →
      Gives (fun k => 0 ≤ k ∧ d' = d.put l (some (splice (data.take k.toNat) off c))) (d' = d) r
  | .mknod path _ _, r, d, d' =>
    Gives (fun _ => d.content path = none ∧ d' = d.put path (some [])) (d' = d) r
  | .truncate _ _, _, d, d' | .unlink _, _, d, d' => d' = d

/-- What a pull makes of the disk. -/
def Disk.Pulled (p l : Str) (d : Disk) (fDone : Prop) (d' : Disk) : Prop :=
  ∃ c, d' = d.put l c ∧ (c = d.content l ∨ c = (d.remote p).or (d.content l)) ∧
    (fDone → c = (d.remote p).or (d.content l))

def Disk.Pushed (p l : Str) (d : Disk) (fDone : Prop) (d' : Disk) : Prop :=
  ∃ c, d' = d.push p c ∧ ∀ b, fDone → d.content l = some b → c = some b

/-- The operations of a caller that keeps to its files. -/
def seen : Protocol Sys View where
  allows x
    | .setFileStatus f => ∃ p ∈ S, ∃ u, f = (·.modify p u)
    | .shell command => command.Asks
    | .spawn argv fUseStdErr =>
      fUseStdErr = true ∧ ∃ fPush, ∃ p ∈ S, argv = adbArgv fPush (g.localPath p) p
    | .syscall call => call.Mine g S x
    | _ => True
  next x
    | .fileStatus, (r : FileStatus), y => y = x ∧ ∀ p ∈ S, r p = x.status p
    | .setFileStatus f, _, y => y = { x with status := f x.status }
    | .spawn argv _, r, y => y.status = x.status ∧ ∀ p ∈ S,
        (argv = adbArgv false (g.localPath p) p →
          x.disk.Pulled p (g.localPath p) (transferResult r = 0) y.disk) ∧
        (argv = adbArgv true (g.localPath p) p →
          x.disk.Pushed p (g.localPath p) (transferResult r = 0) y.disk)
    | .syscall call, r, y => y.status = x.status ∧ call.Tells S r x.disk y.disk
    | _, _, y => y = x

/-- The same with `adbncPush` still to be linked. -/
def linkedSeen : Protocol Linked View where
  allows
    | x, .sys op => (seen g S).allows x op
    | _, .adbncPush strLocalSource strRemoteDestination =>
      strRemoteDestination ∈ S ∧ strLocalSource = g.localPath strRemoteDestination
  next
    | x, .sys op, r, y => (seen g S).next x op r y
    | x, .adbncPush strLocalSource strRemoteDestination, iRes, y => y.status = x.status ∧
        x.disk.Pushed strRemoteDestination strLocalSource (iRes = (0 : Int)) y.disk

variable {g S} {α β : Type} {x : View} {p : Str}

/-! ## Asking -/

/-- The operations that change nothing. -/
def Sys.Op.Asks : Sys.Op → Prop
  | .cacheGet .. | .cachePut .. | .invalidate _ | .fileStatus | .syscall (.stat _) => True
  | .shell command => command.Asks
  | _ => False

theorem obeys_asks {q : Program Sys α} (h : q.Uses (S := Sys) Sys.Op.Asks) :
    q.Obeys (seen g S) x fun _ y => y = x := by
  induction q with
  | ret a => exact rfl
  | call op k ih =>
    obtain ⟨hop, hk⟩ := h
    have hasks : (seen g S).allows x op ∧ ∀ r y, (seen g S).next x op r y → y = x := by
      cases op with
      | cacheGet | cachePut | invalidate => exact ⟨trivial, fun r y h => h⟩
      | fileStatus => exact ⟨trivial, fun r y h => h.1⟩
      | shell command => exact ⟨hop, fun r y h => h⟩
      | syscall call =>
        cases call with
        | stat path =>
          refine ⟨trivial, fun r y h => ?_⟩
          obtain ⟨hstatus, hdisk, -⟩ := h
          exact congrArg₂ View.mk hstatus hdisk
        | _ => exact hop.elim
      | _ => exact hop.elim
    refine ⟨hasks.1, fun r y hnext => ?_⟩
    obtain rfl := hasks.2 r y hnext
    exact ih r (hk r)

theorem obeys_doStat (p : Str) (fTokens : Bool) :
    (doStat p fTokens).Obeys (seen g S) x fun _ y => y = x :=
  obeys_asks (uses_doStat (fun _ => trivial) (fun _ _ => trivial) trivial fTokens)

theorem obeys_access (p : Str) (iMask : Nat) :
    (adbnc_access g p iMask).Obeys (seen g S) x fun _ y => y = x :=
  obeys_asks (uses_access (fun _ => trivial) (fun _ _ => trivial) g trivial iMask)

/-! ## Transfers -/

theorem obeys_execProg {argv : List Str} (h : (seen g S).allows x (.spawn argv true)) :
    (execProg argv true).Obeys (seen g S) x fun r y =>
      ∃ a : Transfer, (seen g S).next x (.spawn argv true) a y ∧ r.2.getD 0 = transferResult a := by
  refine Program.obeys_send_bind h fun a y hnext => ?_
  cases a with
  | none => exact Program.obeys_pure ⟨none, hnext, rfl⟩
  | some r =>
    obtain ⟨stream, status⟩ := r
    dsimp only
    split
    · rename_i hexit
      refine Program.obeys_pure ⟨some (stream, status), hnext, ?_⟩
      rw [show transferResult (some (stream, status)) = ENOENT from if_pos hexit]
      exact hexit.2
    · rename_i hexit
      exact Program.obeys_pure ⟨some (stream, status), hnext, (if_neg hexit).symm⟩

/-- A transfer asks for the access first, and then runs the adb program or gives up. -/
theorem obeys_transfer (fPush : Bool) (hp : p ∈ S) :
    (adbncPushPullCmd g fPush (g.localPath p) p).Obeys (seen g S) x fun iRes y =>
      (iRes ≠ 0 ∧ y = x) ∨ ∃ a : Transfer, iRes = transferResult a ∧
        (seen g S).next x (.spawn (adbArgv fPush (g.localPath p) p) true) a y := by
  refine (obeys_access _ _).bind fun iRes y hy => ?_
  subst hy
  split
  · refine (obeys_execProg ⟨rfl, fPush, p, hp, rfl⟩).bind fun r y hy => ?_
    obtain ⟨a, hnext, hresult⟩ := hy
    exact Program.obeys_pure (Or.inr ⟨a, hresult, hnext⟩)
  · rename_i hne
    exact Program.obeys_pure (Or.inl ⟨hne, rfl⟩)

theorem obeys_pull (hp : p ∈ S) :
    (adbncPull g p (g.localPath p)).Obeys (seen g S) x fun iRes y =>
      y.status = x.status ∧ x.disk.Pulled p (g.localPath p) (iRes = 0) y.disk := by
  refine (obeys_transfer false hp).mono fun iRes y hy => ?_
  obtain ⟨hne, rfl⟩ | ⟨a, rfl, hstatus, hdisk⟩ := hy
  · exact ⟨rfl, _, (Disk.put_self _ _).symm, Or.inl rfl, fun hzero => absurd hzero hne⟩
  · exact ⟨hstatus, (hdisk p hp).1 rfl⟩

/-- A push is the transfer that it is linked to. -/
theorem obeys_link {q : Program Linked α} {Q : α → View → Prop}
    (h : q.Obeys (linkedSeen g S) x Q) : (link g q).Obeys (seen g S) x Q := by
  refine h.expand fun x op hop => ?_
  cases op with
  | sys op => exact Program.obeys_send (S := Sys) (P := seen g S) hop
  | adbncPush l p =>
    obtain ⟨hp, rfl⟩ := hop
    refine (obeys_transfer true hp).mono fun iRes y hy => ?_
    obtain ⟨hne, rfl⟩ | ⟨a, rfl, hstatus, hdisk⟩ := hy
    · exact ⟨rfl, _, (Disk.push_self _ _).symm, fun b hzero => absurd hzero hne⟩
    · exact ⟨hstatus, (hdisk p hp).2 rfl⟩

theorem obeys_sysCalls {q : Program Sys α} {Q : α → View → Prop} (h : q.Obeys (seen g S) x Q) :
    (sysCalls q).Obeys (linkedSeen g S) x Q :=
  Program.Obeys.expand h fun _ _ hop =>
    Program.obeys_send (S := Linked) (P := linkedSeen g S) hop

theorem obeys_syscall {call : Syscall} (h : call.Mine g S x) :
    (sysCalls (syscall call)).Obeys (linkedSeen g S) x fun r y =>
      y.status = x.status ∧ call.Tells S r x.disk y.disk :=
  obeys_sysCalls (Program.obeys_send (S := Sys) (P := seen g S) h)

/-! ## `FileStatus` -/

theorem obeys_modify (hp : p ∈ S) (u : FileStatus.Entry → FileStatus.Entry) :
    (setFileStatus (·.modify p u)).Obeys (seen g S) x fun _ y => y = x.modify p u :=
  Program.obeys_send (S := Sys) (P := seen g S) ⟨p, hp, u, rfl⟩

/-- What `FileStatus` says of a path of the caller's own. -/
theorem obeys_fileStatus_bind (hp : p ∈ S) {f : FileStatus → Program Sys β} {Q : β → View → Prop}
    (hf : ∀ s : FileStatus, s p = x.status p → (f s).Obeys (seen g S) x Q) :
    (fileStatus >>= f).Obeys (seen g S) x Q := by
  have hallows : (seen g S).allows x .fileStatus := trivial
  refine Program.obeys_send_bind (S := Sys) (P := seen g S) hallows fun s y hy => ?_
  obtain ⟨rfl, hs⟩ := hy
  exact hf s (hs p hp)

theorem obeys_linked_fileStatus_bind (hp : p ∈ S) {f : FileStatus → Program Linked β}
    {Q : β → View → Prop}
    (hf : ∀ s : FileStatus, s p = x.status p → (f s).Obeys (linkedSeen g S) x Q) :
    ((liftM fileStatus : Program Linked FileStatus) >>= f).Obeys (linkedSeen g S) x Q := by
  have hsend : (liftM fileStatus : Program Linked FileStatus).Obeys (linkedSeen g S) x
      fun s y => y = x ∧ s p = x.status p :=
    obeys_sysCalls (obeys_fileStatus_bind hp fun s hs => Program.obeys_pure ⟨rfl, hs⟩)
  refine hsend.bind fun s y hy => ?_
  obtain ⟨rfl, hs⟩ := hy
  exact hf s hs

theorem FileStatus.truncated_eq (s : FileStatus) (p : Str) :
    s.truncated p = (s.entry p).m_fTruncated := by
  unfold truncated entry
  cases s p <;> rfl

theorem FileStatus.entry_congr {s t : FileStatus} (h : s p = t p) : s.entry p = t.entry p := by
  rw [entry, entry, h]

end AdbncFs
