import AdbncFs.Processes.Descriptors
import AdbncFs.System.Attributes

/-!
# Starting a child process

`Cpipe` and `Spawn` of `spawn.cpp`, in the parent process. The destructors that C++ runs are
written out: those of the members when a constructor throws, and those of the buffers and the
pipes at the end. `stdio_filebuf` closes its descriptor once.
-/

namespace AdbncFs

open Text Interaction Descriptors

/-! ## The kernel -/

/-- The system calls of the parent. -/
inductive Kernel.Op
  | pipe
  | fork
  | close (fd : Nat)
  | waitpid (pid : Int)

/-- The errno of a call that fails. `fork` gives the child in the parent, when there is one. -/
def Kernel.Op.Res : Kernel.Op → Type
  | .pipe => Except Int (Nat × Nat)
  | .fork => Option Int
  | .close _ => Except Int Unit
  | .waitpid _ => Except Int Int

/-- The kernel as `Cpipe` and `Spawn` use it. -/
def Kernel : Sig := ⟨Kernel.Op, Kernel.Op.Res⟩

namespace Kernel

def pipe : Program Kernel (Except Int (Nat × Nat)) := .send (S := Kernel) .pipe

def fork : Program Kernel (Option Int) := .send (S := Kernel) .fork

def close (fd : Nat) : Program Kernel (Except Int Unit) := .send (S := Kernel) (.close fd)

def waitpid (pid : Int) : Program Kernel (Except Int Int) := .send (S := Kernel) (.waitpid pid)

end Kernel

/-! ## `Cpipe` -/

/-- A pipe: the descriptor to read from and the one to write to. -/
structure Cpipe where
  m_aiFd : Nat × Nat

namespace Cpipe

/-- The constructor; the text is the one of the exception. -/
def new : Program Kernel (Except Str Cpipe) := do
  match ← Kernel.pipe with
  | .error errno =>
    return .error ("Failed to create pipe. Errno: ".toList ++ (toString errno).toList)
  | .ok m_aiFd => return .ok ⟨m_aiFd⟩

/-- The end that is read from. -/
def readFd (p : Cpipe) : Nat := p.m_aiFd.1

/-- The end that is written to. -/
def writeFd (p : Cpipe) : Nat := p.m_aiFd.2

/-- Both ends, whether or not they were closed before. -/
def close (p : Cpipe) : Program Kernel Unit := do
  let _ ← Kernel.close p.m_aiFd.1
  let _ ← Kernel.close p.m_aiFd.2

/-- The destructor. -/
def destroy (p : Cpipe) : Program Kernel Unit := p.close

end Cpipe

/-- `stdio_filebuf` over a descriptor. -/
structure Filebuf where
  fd : Nat
  isOpen : Bool

/-- A close, and the destructor, which closes what is still open. -/
def Filebuf.close (b : Filebuf) : Program Kernel Filebuf := do
  if b.isOpen then
    let _ ← Kernel.close b.fd
    return { b with isOpen := false }
  else return b

/-! ## `Spawn` -/

/-- A child process. The buffers are over the ends that the parent keeps of the pipes. -/
structure Spawn where
  m_iChildPid : Int
  m_pWriteBuf : Filebuf
  m_pReadBuf : Filebuf
  m_WritePipe : Cpipe
  m_ReadPipe : Cpipe

def EXIT_FAILURE : Int := 1

/-- The child was ended by a signal, not only stopped by one. -/
def WIFSIGNALED (status : Int) : Bool := status % 128 ≠ 0 ∧ status % 128 ≠ 127

/-- The kernel does not give a pipe, or a child. -/
def StartFails : Event Kernel → Prop
  | ⟨.pipe, .error _⟩ | ⟨.fork, none⟩ => True
  | _ => False

namespace Spawn

/-- The constructor in the parent. An exception destroys the members constructed so far, the
last one first. -/
def new : Program Kernel (Except Str Spawn) := do
  match ← Cpipe.new with
  | .error strErr => return .error strErr
  | .ok m_WritePipe =>
    match ← Cpipe.new with
    | .error strErr =>
      m_WritePipe.destroy
      return .error strErr
    | .ok m_ReadPipe =>
      match ← Kernel.fork with
      | none =>
        m_ReadPipe.destroy
        m_WritePipe.destroy
        return .error "Failed to start child process".toList
      | some m_iChildPid =>
        let _ ← Kernel.close m_WritePipe.readFd
        let _ ← Kernel.close m_ReadPipe.writeFd
        return .ok {
          m_iChildPid
          m_pWriteBuf := ⟨m_WritePipe.writeFd, true⟩
          m_pReadBuf := ⟨m_ReadPipe.readFd, true⟩
          m_WritePipe
          m_ReadPipe }

/-- The destructor: its body, and then those of the members, the last one first. -/
def destroy (cmd : Spawn) : Program Kernel Unit := do
  let _ ← cmd.m_pWriteBuf.close
  let _ ← cmd.m_pReadBuf.close
  cmd.m_ReadPipe.destroy
  cmd.m_WritePipe.destroy

/-- The child reads an end of file, if nobody else has the end open. -/
def sendEof (cmd : Spawn) : Program Kernel Spawn := do
  return { cmd with m_pWriteBuf := ← cmd.m_pWriteBuf.close }

/-- `Spawn::wait`, with a bound on the turns of its loop. -/
def wait (cmd : Spawn) : Nat → Program Kernel (Option Int)
  | 0 => return none
  | turns + 1 => do
    match ← Kernel.waitpid cmd.m_iChildPid with
    | .error _ => return some EXIT_FAILURE
    | .ok iStatus =>
      if ¬ WIFEXITED iStatus ∧ ¬ WIFSIGNALED iStatus then cmd.wait turns else return some iStatus

/-- What is done with a child process. -/
inductive Use
  | sendEof
  | wait

/-- Use the child process, as far as all its waits return. -/
def use (turns : Nat) : List Use → Spawn → Program Kernel (Option Spawn)
  | [], cmd => return some cmd
  | .sendEof :: uses, cmd => do use turns uses (← cmd.sendEof)
  | .wait :: uses, cmd => do
    match ← cmd.wait turns with
    | none => return none
    | some _ => use turns uses cmd

/-- The life of a `Spawn`, or the exception of its constructor. -/
def lifetime (turns : Nat) (uses : List Use) : Program Kernel (Option (Except Str Unit)) := do
  match ← new with
  | .error strErr => return some (.error strErr)
  | .ok cmd =>
    match ← cmd.use turns uses with
    | none => return none
    | some cmd =>
      cmd.destroy
      return some (.ok ())

end Spawn

/-! ## What it does with descriptors -/

section

variable {θ α : Type} (me : θ)

/-- What a system call does with descriptors: those it gives out, and the one it closes. -/
def actOf : Event Kernel → List (Act θ)
  | ⟨.pipe, .ok (r, w)⟩ => [.give me r, .give me w]
  | ⟨.close fd, _⟩ => [.close me fd]
  | _ => []

/-- What a run does with descriptors, in the order of its calls. -/
def actsOf (es : List (Event Kernel)) : List (Act θ) := es.flatMap (actOf me)

variable {es : List (Event Kernel)}

theorem actsOf_append (es ds : List (Event Kernel)) :
    actsOf me (es ++ ds) = actsOf me es ++ actsOf me ds := List.flatMap_append

theorem close_acts {fd : Nat} {r : Except Int Unit} (h : (Kernel.close fd).Path es r) :
    actsOf me es = [.close me fd] := by
  rw [Program.path_send.mp h]
  rfl

theorem fork_acts {r : Option Int} (h : Kernel.fork.Path es r) : actsOf me es = [] := by
  rw [Program.path_send.mp h]
  rfl

theorem startFails_append {es ds : List (Event Kernel)} :
    (∃ e ∈ es ++ ds, StartFails e) ↔ (∃ e ∈ es, StartFails e) ∨ ∃ e ∈ ds, StartFails e := by
  simp only [List.mem_append, or_and_right, exists_or]

/-- Only the constructor asks for a pipe or a child. -/
def Kernel.Op.Afterwards : Kernel.Op → Prop
  | .pipe | .fork => False
  | _ => True

theorem not_startFails {p : Program Kernel α} {a : α} (h : p.Path es a)
    (hp : p.Uses (S := Kernel) Kernel.Op.Afterwards) : ¬ ∃ e ∈ es, StartFails e := by
  intro ⟨⟨op, answer⟩, he, hfails⟩
  have hop : op.Afterwards := h.of_uses hp _ he
  cases op with
  | pipe | fork => exact hop
  | close fd => exact hfails
  | waitpid pid => exact hfails

theorem waitpid_acts {pid : Int} {r : Except Int Int} (h : (Kernel.waitpid pid).Path es r) :
    actsOf me es = [] := by
  rw [Program.path_send.mp h]
  rfl

namespace Cpipe

theorem new_acts {r : Except Str Cpipe} (h : new.Path es r) :
    (∃ strErr, r = .error strErr) ∧ (∃ e ∈ es, StartFails e) ∧ actsOf me es = [] ∨
      ∃ p, r = .ok p ∧ (¬ ∃ e ∈ es, StartFails e) ∧
        actsOf me es = [.give me p.readFd, .give me p.writeFd] := by
  obtain ⟨answer, es₂, h₂, rfl⟩ := Program.path_send_bind.mp h
  cases answer with
  | error errno =>
    obtain ⟨rfl, rfl⟩ := Program.path_pure.mp h₂
    exact Or.inl ⟨⟨_, rfl⟩, ⟨_, List.mem_singleton_self _, trivial⟩, rfl⟩
  | ok m_aiFd =>
    obtain ⟨rfl, rfl⟩ := Program.path_pure.mp h₂
    refine Or.inr ⟨_, rfl, ?_, rfl⟩
    intro ⟨e, he, hfails⟩
    rw [List.mem_singleton.mp he] at hfails
    exact hfails

theorem destroy_afterwards (p : Cpipe) :
    p.destroy.Uses (S := Kernel) Kernel.Op.Afterwards :=
  Program.uses_bind (Program.uses_send trivial) fun _ =>
    Program.uses_bind (Program.uses_send trivial) fun _ => Program.uses_pure _

theorem destroy_acts {p : Cpipe} {u : Unit} (h : p.destroy.Path es u) :
    actsOf me es = [.close me p.readFd, .close me p.writeFd] := by
  obtain ⟨es₁, r₁, es₂, h₁, h₂, rfl⟩ := Program.path_bind.mp h
  obtain ⟨es₃, r₂, es₄, h₃, h₄, rfl⟩ := Program.path_bind.mp h₂
  obtain ⟨rfl, -⟩ := Program.path_pure.mp h₄
  rw [actsOf_append, actsOf_append, close_acts me h₁, close_acts me h₃]
  rfl

end Cpipe

namespace Filebuf

/-- The close that is still to come of a buffer. -/
def pending (b : Filebuf) : List (Act θ) := if b.isOpen then [.close me b.fd] else []

theorem close_afterwards (b : Filebuf) :
    b.close.Uses (S := Kernel) Kernel.Op.Afterwards := by
  unfold close
  split
  · exact Program.uses_bind (Program.uses_send trivial) fun _ => Program.uses_pure _
  · exact Program.uses_pure b

theorem close_acts {b b' : Filebuf} (h : b.close.Path es b') :
    actsOf me es = b.pending me ∧ b'.pending me = [] := by
  unfold close at h
  unfold pending
  split at h
  · rename_i hopen
    obtain ⟨es₁, r, es₂, h₁, h₂, rfl⟩ := Program.path_bind.mp h
    obtain ⟨rfl, rfl⟩ := Program.path_pure.mp h₂
    rw [actsOf_append, AdbncFs.close_acts me h₁, if_pos hopen]
    exact ⟨rfl, rfl⟩
  · rename_i hclosed
    obtain ⟨rfl, rfl⟩ := Program.path_pure.mp h
    rw [if_neg hclosed]
    exact ⟨rfl, rfl⟩

end Filebuf

namespace Spawn

theorem wait_afterwards (cmd : Spawn) (turns : Nat) :
    (cmd.wait turns).Uses (S := Kernel) Kernel.Op.Afterwards := by
  induction turns with
  | zero => exact Program.uses_pure none
  | succ turns ih =>
    refine Program.uses_bind (Program.uses_send trivial) fun answer => ?_
    cases answer with
    | error errno => exact Program.uses_pure _
    | ok iStatus =>
      dsimp only
      split
      · exact ih
      · exact Program.uses_pure _

theorem use_afterwards (turns : Nat) (uses : List Use) (cmd : Spawn) :
    (use turns uses cmd).Uses (S := Kernel) Kernel.Op.Afterwards := by
  induction uses generalizing cmd with
  | nil => exact Program.uses_pure _
  | cons u uses ih =>
    cases u with
    | sendEof =>
      exact Program.uses_bind (Program.uses_bind (Filebuf.close_afterwards _) fun _ =>
        Program.uses_pure _) ih
    | wait =>
      refine Program.uses_bind (wait_afterwards cmd turns) fun answer => ?_
      cases answer with
      | none => exact Program.uses_pure none
      | some iStatus => exact ih cmd

theorem destroy_afterwards (cmd : Spawn) :
    cmd.destroy.Uses (S := Kernel) Kernel.Op.Afterwards :=
  Program.uses_bind (Filebuf.close_afterwards _) fun _ =>
    Program.uses_bind (Filebuf.close_afterwards _) fun _ =>
      Program.uses_bind (Cpipe.destroy_afterwards _) fun _ => Cpipe.destroy_afterwards _

theorem wait_acts {cmd : Spawn} {turns : Nat} {r : Option Int} (h : (cmd.wait turns).Path es r) :
    actsOf me es = [] := by
  induction turns generalizing es with
  | zero =>
    obtain ⟨rfl, -⟩ := Program.path_pure.mp h
    rfl
  | succ turns ih =>
    obtain ⟨es₁, answer, es₂, h₁, h₂, rfl⟩ := Program.path_bind.mp h
    rw [actsOf_append, waitpid_acts me h₁, List.nil_append]
    cases answer with
    | error errno =>
      obtain ⟨rfl, -⟩ := Program.path_pure.mp h₂
      rfl
    | ok iStatus =>
      dsimp only at h₂
      split at h₂
      · exact ih h₂
      · obtain ⟨rfl, -⟩ := Program.path_pure.mp h₂
        rfl

/-- Whatever is done with a child, its write buffer is closed in it or is still to be closed;
nothing else is closed. -/
theorem use_acts {cmd cmd' : Spawn} {turns : Nat} {uses : List Use}
    (h : (use turns uses cmd).Path es (some cmd')) :
    actsOf me es ++ cmd'.m_pWriteBuf.pending me = cmd.m_pWriteBuf.pending me ∧
      cmd'.m_pReadBuf = cmd.m_pReadBuf ∧ cmd'.m_WritePipe = cmd.m_WritePipe ∧
      cmd'.m_ReadPipe = cmd.m_ReadPipe := by
  induction uses generalizing cmd es with
  | nil =>
    obtain ⟨rfl, hcmd⟩ := Program.path_pure.mp h
    cases hcmd
    exact ⟨rfl, rfl, rfl, rfl⟩
  | cons u uses ih =>
    cases u with
    | sendEof =>
      obtain ⟨es₁, cmd₁, es₂, h₁, h₂, rfl⟩ := Program.path_bind.mp h
      obtain ⟨es₃, b, es₄, h₃, h₄, rfl⟩ := Program.path_bind.mp h₁
      obtain ⟨rfl, rfl⟩ := Program.path_pure.mp h₄
      obtain ⟨hacts, hrest⟩ := ih h₂
      obtain ⟨hclose, hdone⟩ := Filebuf.close_acts me h₃
      refine ⟨?_, hrest⟩
      rw [actsOf_append, actsOf_append, List.append_assoc, hacts, hclose, hdone]
      exact (List.append_assoc _ _ _).trans (List.append_nil _)
    | wait =>
      obtain ⟨es₁, answer, es₂, h₁, h₂, rfl⟩ := Program.path_bind.mp h
      cases answer with
      | none => cases (Program.path_pure.mp h₂).2
      | some iStatus =>
        obtain ⟨hacts, hrest⟩ := ih h₂
        refine ⟨?_, hrest⟩
        rw [actsOf_append, wait_acts me h₁]
        exact hacts

theorem destroy_acts {cmd : Spawn} {u : Unit} (h : cmd.destroy.Path es u) :
    actsOf me es = cmd.m_pWriteBuf.pending me ++ (cmd.m_pReadBuf.pending me ++
      [.close me cmd.m_ReadPipe.readFd, .close me cmd.m_ReadPipe.writeFd,
        .close me cmd.m_WritePipe.readFd, .close me cmd.m_WritePipe.writeFd]) := by
  obtain ⟨es₁, b₁, es₂, h₁, h₂, rfl⟩ := Program.path_bind.mp h
  obtain ⟨es₃, b₂, es₄, h₃, h₄, rfl⟩ := Program.path_bind.mp h₂
  obtain ⟨es₅, u₁, es₆, h₅, h₆, rfl⟩ := Program.path_bind.mp h₄
  rw [actsOf_append, actsOf_append, actsOf_append, (Filebuf.close_acts me h₁).1,
    (Filebuf.close_acts me h₃).1, Cpipe.destroy_acts me h₅, Cpipe.destroy_acts me h₆]
  rfl

/-- When a pipe or the child is missing, the constructor throws and closes what it was given
once; else it leaves two descriptors to the buffers and closes the two others. -/
theorem new_acts {r : Except Str Spawn} (h : new.Path es r) :
    (∃ strErr, r = .error strErr) ∧ (∃ e ∈ es, StartFails e) ∧
        (∃ fds closes : List Nat, closes.Perm fds ∧
          actsOf me es = fds.map (.give me) ++ closes.map (.close me)) ∨
      ∃ cmd, r = .ok cmd ∧ (¬ ∃ e ∈ es, StartFails e) ∧
        cmd.m_pWriteBuf = ⟨cmd.m_WritePipe.writeFd, true⟩ ∧
        cmd.m_pReadBuf = ⟨cmd.m_ReadPipe.readFd, true⟩ ∧
        actsOf me es = [.give me cmd.m_WritePipe.readFd, .give me cmd.m_WritePipe.writeFd,
          .give me cmd.m_ReadPipe.readFd, .give me cmd.m_ReadPipe.writeFd,
          .close me cmd.m_WritePipe.readFd, .close me cmd.m_ReadPipe.writeFd] := by
  obtain ⟨es₁, r₁, es₂, h₁, h₂, rfl⟩ := Program.path_bind.mp h
  rw [actsOf_append, startFails_append]
  rcases Cpipe.new_acts me h₁ with ⟨⟨strErr, rfl⟩, hfails, hacts₁⟩ |
      ⟨m_WritePipe, rfl, hgot₁, hacts₁⟩
  · obtain ⟨rfl, rfl⟩ := Program.path_pure.mp h₂
    exact Or.inl ⟨⟨_, rfl⟩, Or.inl hfails, [], [], .refl _, by rw [hacts₁]; rfl⟩
  obtain ⟨es₃, r₂, es₄, h₃, h₄, rfl⟩ := Program.path_bind.mp h₂
  rw [actsOf_append, startFails_append]
  rcases Cpipe.new_acts me h₃ with ⟨⟨strErr, rfl⟩, hfails, hacts₂⟩ |
      ⟨m_ReadPipe, rfl, hgot₂, hacts₂⟩
  · obtain ⟨es₅, u, es₆, h₅, h₆, rfl⟩ := Program.path_bind.mp h₄
    obtain ⟨rfl, rfl⟩ := Program.path_pure.mp h₆
    refine Or.inl ⟨⟨_, rfl⟩, Or.inr (Or.inl hfails),
      [m_WritePipe.readFd, m_WritePipe.writeFd], _, .refl _, ?_⟩
    rw [actsOf_append, hacts₁, hacts₂, Cpipe.destroy_acts me h₅]
    rfl
  obtain ⟨es₅, child, es₆, h₅, h₆, rfl⟩ := Program.path_bind.mp h₄
  rw [actsOf_append, startFails_append, hacts₁, hacts₂, fork_acts me h₅]
  obtain rfl := Program.path_send.mp h₅
  cases child with
  | none =>
    obtain ⟨es₇, u, es₈, h₇, h₈, rfl⟩ := Program.path_bind.mp h₆
    obtain ⟨es₉, u', es₁₀, h₉, h₁₀, rfl⟩ := Program.path_bind.mp h₈
    obtain ⟨rfl, rfl⟩ := Program.path_pure.mp h₁₀
    refine Or.inl ⟨⟨_, rfl⟩,
      Or.inr (Or.inr (Or.inl ⟨_, List.mem_singleton_self _, trivial⟩)),
      [m_WritePipe.readFd, m_WritePipe.writeFd] ++ [m_ReadPipe.readFd, m_ReadPipe.writeFd],
      [m_ReadPipe.readFd, m_ReadPipe.writeFd] ++ [m_WritePipe.readFd, m_WritePipe.writeFd],
      List.perm_append_comm, ?_⟩
    rw [actsOf_append, actsOf_append, Cpipe.destroy_acts me h₇, Cpipe.destroy_acts me h₉]
    rfl
  | some m_iChildPid =>
    have hclosing := not_startFails h₆ (Program.uses_bind (Program.uses_send trivial) fun _ =>
      Program.uses_bind (Program.uses_send trivial) fun _ => Program.uses_pure _)
    have hgot₃ : ¬ ∃ e ∈ [(⟨.fork, some m_iChildPid⟩ : Event Kernel)], StartFails e := by
      intro ⟨e, he, hfails⟩
      rw [List.mem_singleton.mp he] at hfails
      exact hfails
    obtain ⟨es₇, u, es₈, h₇, h₈, rfl⟩ := Program.path_bind.mp h₆
    obtain ⟨es₉, u', es₁₀, h₉, h₁₀, rfl⟩ := Program.path_bind.mp h₈
    obtain ⟨rfl, rfl⟩ := Program.path_pure.mp h₁₀
    refine Or.inr ⟨_, rfl, ?_, rfl, rfl, ?_⟩
    · exact not_or.mpr ⟨hgot₁, not_or.mpr ⟨hgot₂, not_or.mpr ⟨hgot₃, hclosing⟩⟩⟩
    · rw [actsOf_append, actsOf_append, close_acts me h₇, close_acts me h₉]
      rfl

/-- The descriptors that a `Spawn` is given, and its closes of them: each once when a
pipe or the child is missing, each twice otherwise. -/
theorem lifetime_acts {turns : Nat} {uses : List Use} {r : Except Str Unit}
    (h : (lifetime turns uses).Path es (some r)) :
    ∃ fds closes : List Nat, actsOf me es = fds.map (.give me) ++ closes.map (.close me) ∧
      ((∃ e ∈ es, StartFails e) ∧ closes.Perm fds ∨
        (¬ ∃ e ∈ es, StartFails e) ∧ fds ≠ [] ∧ closes.Perm (fds ++ fds)) := by
  obtain ⟨es₁, r₁, es₂, h₁, h₂, rfl⟩ := Program.path_bind.mp h
  rw [actsOf_append, startFails_append]
  rcases new_acts me h₁ with ⟨⟨strErr, rfl⟩, hfails, fds, closes, hperm, hacts⟩ |
      ⟨cmd, rfl, hgot, hwrite, hread, hacts⟩
  · obtain ⟨rfl, -⟩ := Program.path_pure.mp h₂
    refine ⟨fds, closes, ?_, Or.inl ⟨Or.inl hfails, hperm⟩⟩
    rw [hacts]
    exact List.append_nil _
  · obtain ⟨es₃, r₂, es₄, h₃, h₄, rfl⟩ := Program.path_bind.mp h₂
    cases r₂ with
    | none => cases (Program.path_pure.mp h₄).2
    | some cmd' =>
      obtain ⟨es₅, u, es₆, h₅, h₆, rfl⟩ := Program.path_bind.mp h₄
      obtain ⟨rfl, -⟩ := Program.path_pure.mp h₆
      obtain ⟨huse, hread', hwritePipe, hreadPipe⟩ := use_acts me h₃
      have hfirst : cmd.m_pWriteBuf.pending me = [.close me cmd.m_WritePipe.writeFd] := by
        rw [hwrite]
        rfl
      have hsecond : cmd.m_pReadBuf.pending me = [.close me cmd.m_ReadPipe.readFd] := by
        rw [hread]
        rfl
      refine ⟨[cmd.m_WritePipe.readFd, cmd.m_WritePipe.writeFd, cmd.m_ReadPipe.readFd,
        cmd.m_ReadPipe.writeFd], [cmd.m_WritePipe.readFd, cmd.m_ReadPipe.writeFd,
        cmd.m_WritePipe.writeFd, cmd.m_ReadPipe.readFd, cmd.m_ReadPipe.readFd,
        cmd.m_ReadPipe.writeFd, cmd.m_WritePipe.readFd, cmd.m_WritePipe.writeFd], ?_,
        Or.inr ⟨?_, List.cons_ne_nil _ _, ?_⟩⟩
      · rw [actsOf_append, actsOf_append, destroy_acts me h₅, ← List.append_assoc (actsOf me es₃),
          ← List.append_assoc (actsOf me es₃), huse, hread', hwritePipe, hreadPipe, hacts, hfirst,
          hsecond]
        rfl
      · have huses := not_startFails h₃ (use_afterwards turns uses cmd)
        have hdestroys := not_startFails h₅ (destroy_afterwards cmd')
        rw [startFails_append, startFails_append]
        simp [hgot, huses, hdestroys]
      · refine List.perm_iff_count.mpr fun fd => ?_
        simp only [List.cons_append, List.nil_append, List.count_cons, List.count_nil]
        omega

end Spawn

/-! ## Among other threads -/

variable {me} [DecidableEq θ] {T : Table θ} {H : List (Act θ)} {turns : Nat}
  {uses : List Spawn.Use} {r : Except Str Unit}

/-- A `Spawn` that gets its pipes and its child closes each of its descriptors twice. -/
theorem spawn_closes_twice (hpath : (Spawn.lifetime turns uses).Path es (some r))
    (hown : own me H = actsOf me es) (hlegal : Legal T H) (hresp : Respected me T H)
    (hstarts : ¬ ∃ e ∈ es, StartFails e) {fd : Nat} (hgiven : Act.give me fd ∈ H) :
    H.count (.close me fd) = 2 := by
  obtain ⟨fds, closes, hacts, hcase⟩ := Spawn.lifetime_acts me hpath
  rw [hacts] at hown
  rw [count_close hown]
  have hmem : fd ∈ fds := (given_iff hown).mp hgiven
  have hone := List.count_eq_one_of_mem (nodup_of_own hlegal hresp hown) hmem
  rcases hcase with ⟨hfails, -⟩ | ⟨-, -, hperm⟩
  · exact absurd hfails hstarts
  · rw [hperm.count_eq, List.count_append, hone]

/-- Whatever other threads do between its calls, as long as they close only descriptors of
their own: a `Spawn` closes each of its descriptors once, and none of another thread, if and
only if the kernel does not give it a pipe or its child. A close of another thread's
descriptor is always the second close of a number. -/
theorem spawn_closes_iff (hpath : (Spawn.lifetime turns uses).Path es (some r))
    (hown : own me H = actsOf me es) (hlegal : Legal T H) (hresp : Respected me T H) :
    (ClosedOnce me H ∧ ClosesOwn me T H ↔ ∃ e ∈ es, StartFails e) ∧
      (ClosesOwn me T H ↔ ∀ pre fd post, H = pre ++ .close me fd :: post →
        Act.close me fd ∈ pre → ∀ t, after T pre fd = some t → t = me) := by
  obtain ⟨fds, closes, hacts, hcase⟩ := Spawn.lifetime_acts me hpath
  rw [hacts] at hown
  have hnodup := nodup_of_own hlegal hresp hown
  have hsub : ∀ fd ∈ closes, fd ∈ fds := by
    intro fd hfd
    rcases hcase with ⟨-, hperm⟩ | ⟨-, -, hperm⟩
    · exact hperm.mem_iff.mp hfd
    · exact (List.mem_append.mp (hperm.mem_iff.mp hfd)).elim id id
  refine ⟨?_, closesOwn_iff hlegal hresp fun pre fd post => given_before_close hown hsub⟩
  rcases hcase with ⟨hfails, hperm⟩ | ⟨hstarts, hne, hperm⟩
  · refine iff_of_true ⟨fun fd hgiven => ?_, ?_⟩ hfails
    · rw [count_close hown, hperm.count_eq]
      exact List.count_eq_one_of_mem hnodup ((given_iff hown).mp hgiven)
    · exact closesOwn_of_nodup hlegal hresp hown (hperm.nodup_iff.mpr hnodup) hsub
  · refine iff_of_false (fun h => ?_) hstarts
    obtain ⟨fd, hfd⟩ := List.exists_mem_of_ne_nil fds hne
    have honce := h.1 fd ((given_iff hown).mpr hfd)
    rw [count_close hown, hperm.count_eq, List.count_append,
      List.count_eq_one_of_mem hnodup hfd] at honce
    omega

end

/-! ## Two threads -/

/-- The standard descriptors are in use, by another thread than `true`. -/
def standardTable : Table Bool := fun fd => if fd < 3 then some false else none

/-- The calls of a `Spawn` whose child could not be started. -/
def forkFails : List (Event Kernel) :=
  [⟨.pipe, .ok (3, 4)⟩, ⟨.pipe, .ok (5, 6)⟩, ⟨.fork, none⟩, ⟨.close 5, .ok ()⟩,
    ⟨.close 6, .ok ()⟩, ⟨.close 3, .ok ()⟩, ⟨.close 4, .ok ()⟩]

/-- Another thread opens a file in between. -/
def forkFailsHistory : List (Act Bool) :=
  [.give true 3, .give true 4, .give true 5, .give true 6, .close true 5, .give false 5,
    .close true 6, .close true 3, .close true 4]

theorem path_forkFails : (Spawn.lifetime 1 [.sendEof, .wait]).Path forkFails
    (some (.error "Failed to start child process".toList)) :=
  .call _ (.call _ (.call _ (.call _ (.call _ (.call _ (.call _ (.ret _)))))))

theorem spawn_closes_forkFails :
    ClosedOnce true forkFailsHistory ∧ ClosesOwn true standardTable forkFailsHistory := by
  have hlegal : Legal standardTable forkFailsHistory := by
    refine legal_give rfl (legal_give rfl (legal_give rfl (legal_give rfl (legal_close
      (legal_give rfl (legal_close (legal_close (legal_close legal_nil))))))))
  have hresp : Respected true standardTable forkFailsHistory := by
    refine respected_of_own fun a ha t fd h => ?_
    subst h
    simp only [forkFailsHistory, List.mem_cons, Act.close.injEq, reduceCtorEq,
      List.not_mem_nil, false_or, or_false] at ha
    tauto
  exact (spawn_closes_iff path_forkFails rfl hlegal hresp).1.mpr
    ⟨⟨.fork, none⟩, by simp [forkFails], trivial⟩

/-- The calls of a `Spawn` in `execProg`. -/
def childRuns : List (Event Kernel) :=
  [⟨.pipe, .ok (3, 4)⟩, ⟨.pipe, .ok (5, 6)⟩, ⟨.fork, some 100⟩, ⟨.close 3, .ok ()⟩,
    ⟨.close 6, .ok ()⟩, ⟨.close 4, .ok ()⟩, ⟨.waitpid 100, .ok 0⟩, ⟨.close 5, .ok ()⟩,
    ⟨.close 5, .error EBADF⟩, ⟨.close 6, .error EBADF⟩, ⟨.close 3, .ok ()⟩,
    ⟨.close 4, .error EBADF⟩]

/-- Another thread opens a file after the constructor has closed its end of a pipe. -/
def childRunsHistory : List (Act Bool) :=
  [.give true 3, .give true 4, .give true 5, .give true 6, .close true 3, .close true 6,
    .give false 3, .close true 4, .close true 5, .close true 5, .close true 6, .close true 3,
    .close true 4]

/-- Every end is closed twice, and the file of the other thread is closed. -/
theorem spawn_closes_file :
    (Spawn.lifetime 1 [.sendEof, .wait]).Path childRuns (some (.ok ())) ∧
      own true childRunsHistory = actsOf true childRuns ∧
      Legal standardTable childRunsHistory ∧
      Respected true standardTable childRunsHistory ∧
      ¬ ClosedOnce true childRunsHistory ∧
      ¬ ClosesOwn true standardTable childRunsHistory := by
  refine ⟨?_, rfl, ?_, ?_, ?_, ?_⟩
  · exact .call _ (.call _ (.call _ (.call _ (.call _ (.call _ (.call _ (.call _ (.call _
      (.call _ (.call _ (.call _ (.ret _))))))))))))
  · exact legal_give rfl (legal_give rfl (legal_give rfl (legal_give rfl (legal_close
      (legal_close (legal_give rfl (legal_close (legal_close (legal_close (legal_close
        (legal_close (legal_close legal_nil))))))))))))
  · refine respected_of_own fun a ha t fd h => ?_
    subst h
    simp only [childRunsHistory, List.mem_cons, Act.close.injEq, reduceCtorEq,
      List.not_mem_nil, false_or, or_false] at ha
    tauto
  · intro h
    exact absurd (h 3 (by decide)) (by decide)
  · intro h
    have hfile := h [.give true 3, .give true 4, .give true 5, .give true 6, .close true 3,
      .close true 6, .give false 3, .close true 4, .close true 5, .close true 5, .close true 6]
      3 [.close true 4] rfl false rfl
    exact Bool.false_ne_true hfile

end AdbncFs
