import Mathlib.Data.List.Infix
import AdbncFs.Processes.Spawn
import AdbncFs.Text.Printing

/-!
# The child process

What the constructor of `Spawn` does in the child: its standard descriptors become ends of the two
pipes, and the four ends that it got by the fork are closed. The numbers of the ends are whatever
the kernel gave out. `child_connected_iff` says that it goes well exactly if no standard
descriptor is among them; `child_connected` says where that is so: where the parent has kept its
own standard descriptors. Other threads of the parent may open what they like meanwhile, and
close what is not held by this one. That is assumed: a `Spawn` of another thread may close more
(`Processes/Spawn.lean`).
-/

namespace AdbncFs

open Text Interaction Descriptors Function

/-! ## The system calls -/

inductive Child.Op
  | dup2 (oldFd newFd : Nat)
  | close (fd : Nat)
  /-- one of `execvpe`, `execvp`, `execve` and `execv`; it returns where it fails -/
  | exec (fWithPath : Bool) (argv : List Str) (envp : Option (List Str))
  /-- a line to `cout` or `cerr` -/
  | print (fd : Nat) (line : Str)

def Child.Op.Res : Child.Op → Type
  | .exec _ _ _ => Option Int
  | _ => Unit

/-- The calls of the child. The answer to `exec` is `errno`, or nothing where the program runs. -/
def Child : Sig := ⟨Child.Op, Child.Op.Res⟩

/-- What becomes of the child. -/
inductive Fate
  | runs
  | exits (status : Int)
  deriving DecidableEq

/-! ## The source -/

def STDIN_FILENO : Nat := 0

def STDOUT_FILENO : Nat := 1

def STDERR_FILENO : Nat := 2

def dup2 (oldFd newFd : Nat) : Program Child Unit := .send (S := Child) (.dup2 oldFd newFd)

/-- `Cpipe::close` in the child. -/
def Cpipe.closeInChild (p : Cpipe) : Program Child Unit := do
  let _ ← Program.send (S := Child) (.close p.m_aiFd.1)
  let _ ← Program.send (S := Child) (.close p.m_aiFd.2)

/-- The constructor of `Spawn` in the child. -/
def Spawn.child (m_WritePipe m_ReadPipe : Cpipe) (argv : List Str) (fUseStdErr fWithPath : Bool)
    (envp : Option (List Str)) : Program Child Fate := do
  dup2 m_WritePipe.readFd STDIN_FILENO
  if fUseStdErr then dup2 m_ReadPipe.writeFd STDERR_FILENO
  else dup2 m_ReadPipe.writeFd STDOUT_FILENO
  m_WritePipe.closeInChild
  m_ReadPipe.closeInChild
  match ← Program.send (S := Child) (.exec fWithPath argv envp) with
  | none => return .runs
  | some errno =>
    let message := "Error: Failed to launch program \"".toList ++ argv.headD [] ++
      "\" Error: ".toList ++ printInt errno
    let _ ← Program.send (S := Child)
      (.print (if fUseStdErr then STDOUT_FILENO else STDERR_FILENO) message)
    return .exits errno

/-! ## The descriptors of the child -/

/-- The open files of a process, by their descriptors. -/
abbrev OpenFiles (φ : Type) := Nat → Option φ

variable {φ : Type}

/-- The calls of the child on its descriptors, when `exec` gives the answer. -/
def Child.handle (answer : Option Int) : Handler Child (OpenFiles φ)
  | .dup2 oldFd newFd, files =>
    ((), match files oldFd with
      | some file => update files newFd (some file)
      | none => files)
  | .close fd, files => ((), update files fd none)
  | .exec _ _ _, files => (answer, files)
  | .print _ _, files => ((), files)

/-- The numbers that the pipes got. -/
def pipeFds (m_WritePipe m_ReadPipe : Cpipe) : List Nat :=
  [m_WritePipe.readFd, m_WritePipe.writeFd, m_ReadPipe.readFd, m_ReadPipe.writeFd]

/-- The descriptor that the child writes to the pipe with. -/
def outFd (fUseStdErr : Bool) : Nat := if fUseStdErr then STDERR_FILENO else STDOUT_FILENO

/-- The pipes are the standard descriptors, their ends are closed otherwise, and the rest is as in
the parent. -/
structure Connected (m_WritePipe m_ReadPipe : Cpipe) (fUseStdErr : Bool)
    (files child : OpenFiles φ) : Prop where
  stdin : child STDIN_FILENO = files m_WritePipe.readFd
  out : child (outFd fUseStdErr) = files m_ReadPipe.writeFd
  ends : ∀ fd ∈ pipeFds m_WritePipe m_ReadPipe, child fd = none
  rest : ∀ fd, fd ∉ STDIN_FILENO :: outFd fUseStdErr :: pipeFds m_WritePipe m_ReadPipe →
    child fd = files fd

variable {m_WritePipe m_ReadPipe : Cpipe} {argv : List Str} {fUseStdErr fWithPath : Bool}
  {envp : Option (List Str)} {answer : Option Int} {files : OpenFiles φ} {a b : φ}

/-- The files of the child when `exec` is called, and afterwards. -/
def childFiles (m_WritePipe m_ReadPipe : Cpipe) (fUseStdErr : Bool) (files : OpenFiles φ) :
    OpenFiles φ :=
  let h := Child.handle none
  let files := (h (.dup2 m_WritePipe.readFd STDIN_FILENO) files).2
  let files := (h (.dup2 m_ReadPipe.writeFd (outFd fUseStdErr)) files).2
  (pipeFds m_WritePipe m_ReadPipe).foldl (fun files fd => update files fd none) files

theorem run_child :
    (Spawn.child m_WritePipe m_ReadPipe argv fUseStdErr fWithPath envp).run
        (Child.handle answer) files =
      ((match answer with
        | none => Fate.runs
        | some errno => .exits errno), childFiles m_WritePipe m_ReadPipe fUseStdErr files) := by
  cases fUseStdErr <;> cases answer <;> rfl

theorem closed_apply (fds : List Nat) (files : OpenFiles φ) (fd : Nat) :
    fds.foldl (fun files fd => update files fd none) files fd =
      if fd ∈ fds then none else files fd := by
  induction fds generalizing files with
  | nil => rfl
  | cons fd' fds ih =>
    rw [List.foldl_cons, ih]
    by_cases hmem : fd ∈ fds
    · rw [if_pos hmem, if_pos (List.mem_cons_of_mem _ hmem)]
    · rw [if_neg hmem]
      by_cases hfd : fd = fd'
      · rw [if_pos (List.mem_cons.mpr (.inl hfd)), hfd, update_self]
      · rw [if_neg (fun h => (List.mem_cons.mp h).elim hfd hmem), update_of_ne hfd]

theorem dup2_apply {oldFd : Nat} (newFd : Nat) (h : files oldFd = some a) (fd : Nat) :
    (Child.handle answer (.dup2 oldFd newFd) files).2 fd =
      if fd = newFd then some a else files fd := by
  change (match files oldFd with
    | some file => update files newFd (some file)
    | none => files) fd = _
  rw [h]
  exact update_apply files newFd (some a) fd

theorem outFd_ne (fUseStdErr : Bool) : outFd fUseStdErr ≠ STDIN_FILENO := by
  cases fUseStdErr <;> decide

/-- The files of the child, where the second `dup2` still finds its pipe. -/
theorem childFiles_apply (hread : files m_WritePipe.readFd = some a)
    (hwrite : files m_ReadPipe.writeFd = some b) (hstdin : m_ReadPipe.writeFd ≠ STDIN_FILENO)
    (fd : Nat) :
    childFiles m_WritePipe m_ReadPipe fUseStdErr files fd =
      if fd ∈ pipeFds m_WritePipe m_ReadPipe then none
      else if fd = outFd fUseStdErr then some b
      else if fd = STDIN_FILENO then some a else files fd := by
  have hsecond : (Child.handle none (.dup2 m_WritePipe.readFd STDIN_FILENO) files).2
      m_ReadPipe.writeFd = some b := by
    rw [dup2_apply _ hread, if_neg hstdin, hwrite]
  rw [childFiles, closed_apply, dup2_apply _ hsecond, dup2_apply _ hread]

theorem childFiles_closed {fd : Nat} (h : fd ∈ pipeFds m_WritePipe m_ReadPipe) :
    childFiles m_WritePipe m_ReadPipe fUseStdErr files fd = none := by
  rw [childFiles, closed_apply, if_pos h]

/-- Whatever numbers the pipes have: the child is connected if and only if none of them is one of
the descriptors that it is to use. -/
theorem child_connected_iff (hread : files m_WritePipe.readFd = some a)
    (hwrite : files m_ReadPipe.writeFd = some b) :
    Connected m_WritePipe m_ReadPipe fUseStdErr files
      (childFiles m_WritePipe m_ReadPipe fUseStdErr files) ↔
    STDIN_FILENO ∉ pipeFds m_WritePipe m_ReadPipe ∧
      outFd fUseStdErr ∉ pipeFds m_WritePipe m_ReadPipe := by
  constructor
  · intro h
    constructor
    · intro hmem
      have hstdin := h.stdin
      rw [childFiles_closed hmem, hread] at hstdin
      cases hstdin
    · intro hmem
      have hout := h.out
      rw [childFiles_closed hmem, hwrite] at hout
      cases hout
  · rintro ⟨hstdin, hout⟩
    have hne : m_ReadPipe.writeFd ≠ STDIN_FILENO := by
      rintro heq
      refine hstdin ?_
      rw [← heq]
      simp [pipeFds]
    refine ⟨?_, ?_, fun fd hfd => childFiles_closed hfd, fun fd hfd => ?_⟩
    · rw [childFiles_apply hread hwrite hne, if_neg hstdin, if_neg (outFd_ne _).symm, if_pos rfl,
        hread]
    · rw [childFiles_apply hread hwrite hne, if_neg hout, if_pos rfl, hwrite]
    · simp only [List.mem_cons, not_or] at hfd
      rw [childFiles_apply hread hwrite hne, if_neg hfd.2.2, if_neg hfd.2.1, if_neg hfd.1]

/-! ## Among other threads -/

section

variable {θ : Type} {me : θ} {T : Table θ} {H : List (Act θ)} {es : List (Event Kernel)}
  {cmd : Spawn}

/-- The pipes got numbers that were given to this thread. -/
theorem given_of_new [DecidableEq θ] (hpath : Spawn.new.Path es (.ok cmd))
    (hown : own me H = actsOf me es) :
    own me H = (pipeFds cmd.m_WritePipe cmd.m_ReadPipe).map (.give me) ++
      [cmd.m_WritePipe.readFd, cmd.m_ReadPipe.writeFd].map (.close me) := by
  rcases Spawn.new_acts me hpath with ⟨⟨strErr, hthrows⟩, -⟩ | ⟨cmd', hcmd, -, -, -, hacts⟩
  · cases hthrows
  · cases hcmd
    rw [hown, hacts]
    rfl

variable [DecidableEq θ]

/-- A descriptor that is in use all the time is none of a pipe. -/
theorem not_mem_pipeFds (hpath : Spawn.new.Path es (.ok cmd)) (hown : own me H = actsOf me es)
    (hlegal : Legal T H) {fd : Nat} (hused : ∀ pre post, H = pre ++ post → after T pre fd ≠ none) :
    fd ∉ pipeFds cmd.m_WritePipe cmd.m_ReadPipe := by
  intro hmem
  have hgiven : Act.give me fd ∈ H := (given_iff (given_of_new hpath hown)).mpr hmem
  obtain ⟨pre, post, hH⟩ := List.append_of_mem hgiven
  exact hused pre _ hH (hlegal pre me fd post hH)

/-- Whatever other threads open while a `Spawn` is constructed, and close of what is theirs: if the
parent keeps the standard descriptors that the child is to use, and the pipes are still open when
the child is made, the child is connected. The write end of its own input, which would keep it
from an end of that, it does not have. -/
theorem child_connected (hpath : Spawn.new.Path es (.ok cmd)) (hown : own me H = actsOf me es)
    (hlegal : Legal T H) (hresp : Respected me T H)
    (hused : ∀ pre post, H = pre ++ post →
      after T pre STDIN_FILENO ≠ none ∧ after T pre (outFd fUseStdErr) ≠ none)
    {c : φ} (hread : files cmd.m_WritePipe.readFd = some a)
    (hwrite : files cmd.m_ReadPipe.writeFd = some b)
    (hinput : ∀ fd, files fd = some c ↔ fd = cmd.m_WritePipe.writeFd) :
    let child := ((Spawn.child cmd.m_WritePipe cmd.m_ReadPipe argv fUseStdErr fWithPath envp).run
      (Child.handle answer) files).2
    Connected cmd.m_WritePipe cmd.m_ReadPipe fUseStdErr files child ∧
      ∀ fd, child fd ≠ some c := by
  intro child
  have hchild : child = childFiles cmd.m_WritePipe cmd.m_ReadPipe fUseStdErr files :=
    congrArg Prod.snd run_child
  have hstdin := not_mem_pipeFds hpath hown hlegal fun pre post hH => (hused pre post hH).1
  have hout := not_mem_pipeFds hpath hown hlegal fun pre post hH => (hused pre post hH).2
  have hconnected := (child_connected_iff hread hwrite).mpr ⟨hstdin, hout⟩
  rw [hchild]
  refine ⟨hconnected, fun fd hfd => ?_⟩
  have hnodup := nodup_of_own hlegal hresp (given_of_new hpath hown)
  simp only [pipeFds, List.nodup_cons, List.mem_cons, List.not_mem_nil, or_false, not_or] at hnodup
  by_cases hends : fd ∈ pipeFds cmd.m_WritePipe cmd.m_ReadPipe
  · rw [hconnected.ends fd hends] at hfd
    cases hfd
  by_cases hzero : fd = STDIN_FILENO
  · rw [hzero, hconnected.stdin] at hfd
    exact hnodup.1.1 ((hinput _).mp hfd)
  by_cases hone : fd = outFd fUseStdErr
  · rw [hone, hconnected.out] at hfd
    exact hnodup.2.1.2 ((hinput _).mp hfd).symm
  · rw [hconnected.rest fd (by simp [hzero, hone, hends])] at hfd
    refine hends ?_
    rw [(hinput fd).mp hfd]
    simp [pipeFds]

end

/-! ### A child, while another thread opens a file -/

/-- The calls of the constructor. -/
def childStarts : List (Event Kernel) :=
  [⟨.pipe, .ok (3, 4)⟩, ⟨.pipe, .ok (6, 7)⟩, ⟨.fork, some 100⟩, ⟨.close 3, .ok ()⟩,
    ⟨.close 7, .ok ()⟩]

/-- The other thread gets a number between those of the pipes. -/
def childStartsHistory : List (Act Bool) :=
  [.give true 3, .give true 4, .give false 5, .give true 6, .give true 7, .close true 3,
    .close true 7]

/-- The open files when the child is made. -/
def eightFiles : OpenFiles Nat := fun fd => if fd < 8 then some fd else none

theorem child_connected_runs :
    let pipes : Cpipe × Cpipe := (⟨(3, 4)⟩, ⟨(6, 7)⟩)
    let child := ((Spawn.child pipes.1 pipes.2 ["adb".toList] false true none).run
      (Child.handle none) eightFiles).2
    Connected pipes.1 pipes.2 false eightFiles child ∧ ∀ fd, child fd ≠ some 4 := by
  have hpath : Spawn.new.Path childStarts (.ok ⟨100, ⟨4, true⟩, ⟨6, true⟩, ⟨(3, 4)⟩, ⟨(6, 7)⟩⟩) :=
    .call _ (.call _ (.call _ (.call _ (.call _ (.ret _)))))
  have hlegal : Legal standardTable childStartsHistory :=
    legal_give rfl (legal_give rfl (legal_give rfl (legal_give rfl (legal_give rfl
      (legal_close (legal_close legal_nil))))))
  have hresp : Respected true standardTable childStartsHistory := by
    refine respected_of_own fun a ha t fd h => ?_
    subst h
    simp only [childStartsHistory, List.mem_cons, Act.close.injEq, reduceCtorEq,
      List.not_mem_nil, false_or, or_false] at ha
    tauto
  have hused : ∀ pre ∈ childStartsHistory.inits,
      after standardTable pre STDIN_FILENO ≠ none ∧
        after standardTable pre (outFd false) ≠ none := by decide
  refine child_connected hpath rfl hlegal hresp (fun pre post hH => ?_) rfl rfl fun fd => ?_
  · exact hused pre ((List.mem_inits _ _).mpr ⟨post, hH.symm⟩)
  · change (if fd < 8 then some fd else none) = some 4 ↔ fd = 4
    split
    · exact Option.some_inj
    · exact iff_of_false nofun (by omega)

end AdbncFs
