import AdbncFs.Interaction.Protocol
import AdbncFs.Processes.Spawn
import AdbncFs.System.Transfers

/-!
# Running a program to its end

`execProg` down to the system calls: a `Spawn` whose output is read as the pipe gives it, in pieces
of any length, and whose end is awaited through any number of stops. For the callbacks all of this
is one operation, with all bytes and the last status for an answer. `execProg_over_kernel` connects
the two: with a child that comes to an end, the run gives what the callbacks count on, wherever
the pieces are cut.

After a line with an error `execProg` waits for the child and reads no more. A child that then has
more to write than the pipe holds is stuck, and the wait does not come back: what is behind such a
line has to fit into the pipe.
-/

namespace AdbncFs

open Text Interaction

/-! ## The system calls -/

inductive Piped.Op
  | kernel (op : Kernel.Op)
  | read (fd : Nat)

/-- A read gives some bytes, or none at the end. -/
def Piped.Op.Res : Piped.Op → Type
  | .kernel op => op.Res
  | .read _ => Except Int Str

/-- The calls of a process that reads from pipes. -/
def Piped : Sig := ⟨Piped.Op, Piped.Op.Res⟩

def kernelCalls {α : Type} (p : Program Kernel α) : Program Piped α :=
  p.expand fun op => Program.send (S := Piped) (.kernel op)

instance : MonadLift (Program Kernel) (Program Piped) := ⟨kernelCalls⟩

/-! ## The source -/

/-- What `getline` comes to: a line with the bytes behind it, the end of the stream, or an error,
with what it has read of the line. -/
inductive Getline
  | line (strTmpString unread : Str)
  | eof
  | bad (strTmpString : Str)

/-- `getline` from a `stdio_filebuf` that has some bytes left, with a bound on its reads. -/
def getlineFrom (fd : Nat) : Nat → Str → Program Piped (Option Getline)
  | 0, _ => return none
  | turns + 1, unread => do
    match getline unread with
    | some (strTmpString, unread) => return some (.line strTmpString unread)
    | none =>
      match ← Program.send (S := Piped) (.read fd) with
      | .ok (c :: chunk) => getlineFrom fd turns (unread ++ c :: chunk)
      | .ok [] => return some .eof
      | .error _ => return some (.bad unread)

/-- The reading loop, with a bound on its turns. After an error every further `getline` fails as
well and leaves the string as it is, but none comes to the end. -/
def execProg.reading (fUseStdErr : Bool) (fd : Nat) :
    Nat → Str → Program Piped (Option (Output × Option Int))
  | 0, _ => return none
  | turns + 1, unread => do
    match ← getlineFrom fd (turns + 1) unread with
    | none => return none
    | some .eof => return some ([], none)
    | some (.bad strTmpString) =>
      match if fUseStdErr then lineError strTmpString else none with
      | some error => return some ([], some error)
      | none => return none
    | some (.line strTmpString unread) =>
      match if fUseStdErr then lineError strTmpString else none with
      | some error => return some ([], some error)
      | none =>
        match ← execProg.reading fUseStdErr fd turns unread with
        | none => return none
        | some r => return some (strTmpString :: r.1, r.2)

/-- `execProg` in the parent, with a bound on the turns of its loops. -/
def execProgCalls (fUseStdErr : Bool) (turns : Nat) :
    Program Piped (Option (Output × Option Int)) := do
  match ← (Spawn.new : Program Piped _) with
  | .error _ => return some ([], some (- EIO))
  | .ok cmd =>
    match ← execProg.reading fUseStdErr cmd.m_pReadBuf.fd turns [] with
    | none => return none
    | some (output, iError) =>
      let cmd ← (cmd.sendEof : Program Piped Spawn)
      match ← (cmd.wait turns : Program Piped _) with
      | none => return none
      | some iExitCode =>
        let _ ← (cmd.destroy : Program Piped Unit)
        if WIFEXITED iExitCode ∧ WEXITSTATUS iExitCode = ENOENT then
          return some (output, some (WEXITSTATUS iExitCode))
        else return some (output, iError)

/-! ## What the kernel answers -/

/-- What is known of a child: whether it was started, what was read from it, whether a read
failed, and its last status. -/
structure Transcript where
  started : Bool
  bytes : Str
  readFailed : Bool
  iStatus : Int

def Transcript.start : Transcript := ⟨true, [], false, EXIT_FAILURE⟩

def Transcript.after (s : Transcript) : Event Piped → Transcript
  | ⟨.kernel .pipe, .error _⟩ | ⟨.kernel .fork, none⟩ => { s with started := false }
  | ⟨.kernel (.waitpid _), .ok iStatus⟩ => { s with iStatus }
  | ⟨.kernel (.waitpid _), .error _⟩ => { s with iStatus := EXIT_FAILURE }
  | ⟨.read _, .ok chunk⟩ => { s with bytes := s.bytes ++ chunk }
  | ⟨.read _, .error _⟩ => { s with readFailed := true }
  | _ => s

/-- The answer to the one operation of the callbacks. -/
def Transcript.answer (s : Transcript) : Option (Str × Int) :=
  if s.started then some (s.bytes, s.iStatus) else none

def transcript : Protocol Piped Transcript := .recording Transcript.after

/-! ## Lines and pieces -/

variable {f : Bool} {s t : Transcript} {fd turns : Nat} {unread : Str}

theorem getline_more {line rest : Str} (h : getline unread = some (line, rest)) (more : Str) :
    getline (unread ++ more) = some (line, rest ++ more) := by
  obtain ⟨rfl, hline⟩ := getline_eq_some.mp h
  rw [List.append_assoc, List.cons_append]
  exact getline_append hline

theorem loop_of_line {stream line rest : Str} (h : getline stream = some (line, rest)) :
    execProg.loop f stream =
      match if f then lineError line else none with
      | some error => ([], some error)
      | none => (line :: (execProg.loop f rest).1, (execProg.loop f rest).2) := by
  rw [execProg.loop]
  split
  · rename_i hnone
    rw [h] at hnone
    cases hnone
  · rename_i hsome
    obtain ⟨rfl, rfl⟩ := Prod.mk.inj (Option.some.inj (hsome.symm.trans h))
    cases f with
    | false => rfl
    | true =>
      simp only [true_and, if_true, lineError]
      split
      · rfl
      · split <;> rfl

theorem loop_of_end {stream : Str} (h : getline stream = none) :
    execProg.loop f stream = ([], none) := by
  rw [execProg.loop]
  split
  · rfl
  · rename_i hsome
    rw [h] at hsome
    cases hsome

/-! ## What was read -/

/-- Some bytes were read, and nothing else was done. -/
def Transcript.Reads (s : Transcript) (more : Str) (t : Transcript) : Prop :=
  t = { s with bytes := s.bytes ++ more }

theorem Transcript.Reads.trans {u : Transcript} {more more' : Str} (h : s.Reads more t)
    (h' : t.Reads more' u) : s.Reads (more ++ more') u := by
  subst h h'
  simp only [Reads, List.append_assoc]

/-- What `getline` comes to, by all bytes that it has. -/
def Getline.Of (stream : Str) : Getline → Prop
  | .line strTmpString unread => getline stream = some (strTmpString, unread)
  | .eof => getline stream = none
  | .bad _ => False

theorem obeys_getlineFrom (fd turns : Nat) (unread : Str) (s : Transcript) :
    (getlineFrom fd turns unread).Obeys transcript s fun r t =>
      ∀ result, r = some result → t.readFailed = false →
        ∃ more, s.Reads more t ∧ result.Of (unread ++ more) := by
  have hnothing : s.Reads [] s := by rw [Transcript.Reads, List.append_nil]
  induction turns generalizing unread s with
  | zero => exact Program.obeys_pure nofun
  | succ turns ih =>
    rw [getlineFrom]
    split
    · rename_i strTmpString rest hline
      refine Program.obeys_pure fun result hresult _ => ⟨[], hnothing, ?_⟩
      obtain rfl := Option.some.inj hresult
      rw [List.append_nil]
      exact hline
    · rename_i hnone
      have hallows : transcript.allows s (.read fd) := trivial
      refine Program.obeys_send_bind hallows fun r t ht => ?_
      match r, ht with
      | .error errno, ht =>
        refine Program.obeys_pure fun result hresult hok => ?_
        rw [show t = _ from ht] at hok
        cases hok
      | .ok [], ht =>
        refine Program.obeys_pure fun result hresult _ => ⟨[], ht, ?_⟩
        obtain rfl := Option.some.inj hresult
        rw [List.append_nil]
        exact hnone
      | .ok (c :: chunk), ht =>
        have hrest := ih (unread ++ c :: chunk) t (by rw [Transcript.Reads, List.append_nil])
        refine hrest.mono fun r u h result hresult hok => ?_
        obtain ⟨more, hreads, hof⟩ := h result hresult hok
        refine ⟨c :: chunk ++ more, Transcript.Reads.trans ht hreads, ?_⟩
        rw [← List.append_assoc]
        exact hof

theorem obeys_reading (fd turns : Nat) (unread : Str) (s : Transcript) :
    (execProg.reading f fd turns unread).Obeys transcript s fun r t =>
      ∀ result, r = some result → t.readFailed = false →
        ∃ more, s.Reads more t ∧ execProg.loop f (unread ++ more) = result := by
  induction turns generalizing unread s with
  | zero => exact Program.obeys_pure nofun
  | succ turns ih =>
    rw [execProg.reading]
    refine (obeys_getlineFrom fd (turns + 1) unread s).bind fun r t ht => ?_
    match r, ht with
    | none, _ => exact Program.obeys_pure nofun
    | some .eof, ht =>
      refine Program.obeys_pure fun result hresult hok => ?_
      obtain ⟨more, hreads, hof⟩ := ht _ rfl hok
      obtain rfl := Option.some.inj hresult
      exact ⟨more, hreads, loop_of_end hof⟩
    | some (.bad strTmpString), ht =>
      have hbad : t.readFailed = false → False := fun hok => by
        obtain ⟨_, _, hof⟩ := ht _ rfl hok
        exact hof
      dsimp only
      split
      · exact Program.obeys_pure fun _ _ hok => (hbad hok).elim
      · exact Program.obeys_pure nofun
    | some (.line strTmpString rest), ht =>
      dsimp only
      split
      · rename_i error herror
        refine Program.obeys_pure fun result hresult hok => ?_
        obtain ⟨more, hreads, hline⟩ := ht _ rfl hok
        obtain rfl := Option.some.inj hresult
        refine ⟨more, hreads, ?_⟩
        rw [loop_of_line hline, herror]
      · rename_i herror
        refine (ih rest t).bind fun r u hrest => ?_
        cases r with
        | none => exact Program.obeys_pure nofun
        | some r =>
          refine Program.obeys_pure fun result hresult hok => ?_
          obtain ⟨more', hreads', hloop⟩ := hrest r rfl hok
          have hok' : t.readFailed = false := by
            rw [hreads'] at hok
            exact hok
          obtain ⟨more, hreads, hline⟩ := ht _ rfl hok'
          obtain rfl := Option.some.inj hresult
          refine ⟨more ++ more', hreads.trans hreads', ?_⟩
          rw [← List.append_assoc, loop_of_line (getline_more hline more'), herror, hloop]

/-! ## The start and the end -/

/-- The record of the calls that read nothing. -/
def kernelTranscript : Protocol Kernel Transcript :=
  .recording fun s e => s.after ⟨.kernel e.1, e.2⟩

variable {α : Type}

theorem obeys_kernelCalls {p : Program Kernel α} {Q : α → Transcript → Prop}
    (h : p.Obeys kernelTranscript s Q) : (kernelCalls p).Obeys transcript s Q :=
  h.expand fun s op _ => by
    have hallows : transcript.allows s (.kernel op) := trivial
    exact Program.obeys_send hallows

def Kernel.Op.Closes : Kernel.Op → Prop
  | .close _ => True
  | _ => False

/-- A close tells nothing of the child. -/
theorem obeys_closes {p : Program Kernel α} (hp : p.Uses (S := Kernel) Kernel.Op.Closes) :
    p.Obeys kernelTranscript s fun _ t => t = s := by
  induction p with
  | ret a => rfl
  | call op k ih =>
    refine ⟨trivial, fun r t ht => ?_⟩
    obtain rfl : t = s := by
      cases op with
      | close fd => exact ht
      | _ => exact hp.1.elim
    exact ih r (hp.2 r)

theorem closes_filebuf (b : Filebuf) : b.close.Uses (S := Kernel) Kernel.Op.Closes := by
  rw [Filebuf.close]
  split
  · exact Program.uses_bind (Program.uses_send trivial) fun _ => Program.uses_pure _
  · exact Program.uses_pure b

theorem closes_cpipe (p : Cpipe) : p.destroy.Uses (S := Kernel) Kernel.Op.Closes :=
  Program.uses_bind (Program.uses_send trivial) fun _ =>
    Program.uses_bind (Program.uses_send trivial) fun _ => Program.uses_pure _

theorem closes_sendEof (cmd : Spawn) : cmd.sendEof.Uses (S := Kernel) Kernel.Op.Closes :=
  Program.uses_bind (closes_filebuf _) fun _ => Program.uses_pure _

theorem closes_destroy (cmd : Spawn) : cmd.destroy.Uses (S := Kernel) Kernel.Op.Closes :=
  Program.uses_bind (closes_filebuf _) fun _ => Program.uses_bind (closes_filebuf _) fun _ =>
    Program.uses_bind (closes_cpipe _) fun _ => closes_cpipe _

theorem obeys_cpipe :
    Cpipe.new.Obeys kernelTranscript s fun
      | .ok _, t => t = s
      | .error _, t => t.started = false := by
  have hallows : kernelTranscript.allows s .pipe := trivial
  refine Program.obeys_send_bind hallows fun r t ht => ?_
  rw [show t = _ from ht]
  cases r with
  | ok m_aiFd => exact Program.obeys_pure rfl
  | error errno => exact Program.obeys_pure rfl

theorem obeys_spawnNew :
    Spawn.new.Obeys kernelTranscript s fun
      | .ok _, t => t = s
      | .error _, t => t.started = false := by
  rw [Spawn.new]
  refine obeys_cpipe.bind fun r t ht => ?_
  cases r with
  | error strErr => exact Program.obeys_pure ht
  | ok m_WritePipe =>
    obtain rfl : t = s := ht
    refine obeys_cpipe.bind fun r u hu => ?_
    cases r with
    | error strErr =>
      refine (obeys_closes (closes_cpipe _)).bind fun _ v hv => ?_
      rw [hv]
      exact Program.obeys_pure hu
    | ok m_ReadPipe =>
      obtain rfl : u = t := hu
      have hallows : kernelTranscript.allows u .fork := trivial
      refine Program.obeys_send_bind hallows fun child v hv => ?_
      cases child with
      | none =>
        refine (obeys_closes (closes_cpipe m_ReadPipe)).bind fun _ w hw => ?_
        refine (obeys_closes (closes_cpipe m_WritePipe)).bind fun _ x hx => ?_
        rw [hx, hw, show v = _ from hv]
        exact Program.obeys_pure rfl
      | some m_iChildPid =>
        have hclose : ∀ fd, (Kernel.close fd).Uses (S := Kernel) Kernel.Op.Closes :=
          fun _ => Program.uses_send trivial
        refine (obeys_closes (hclose _)).bind fun _ w hw => ?_
        refine (obeys_closes (hclose _)).bind fun _ x hx => ?_
        rw [hx, hw]
        exact Program.obeys_pure hv

/-- The status that comes out is the last one. -/
theorem obeys_wait (cmd : Spawn) (turns : Nat) :
    (cmd.wait turns).Obeys kernelTranscript s fun r t =>
      ∀ iStatus, r = some iStatus → t = { s with iStatus } := by
  induction turns generalizing s with
  | zero => exact Program.obeys_pure nofun
  | succ turns ih =>
    have hallows : kernelTranscript.allows s (.waitpid cmd.m_iChildPid) := trivial
    refine Program.obeys_send_bind hallows fun r t ht => ?_
    cases r with
    | error errno =>
      refine Program.obeys_pure fun iStatus hstatus => ?_
      obtain rfl := Option.some.inj hstatus
      exact ht
    | ok iStatus =>
      dsimp only
      split
      · refine ih.mono fun r u hu iStatus' hstatus => ?_
        rw [hu iStatus' hstatus, show t = _ from ht]
        rfl
      · refine Program.obeys_pure fun iStatus' hstatus => ?_
        obtain rfl := Option.some.inj hstatus
        exact ht

/-! ## The whole -/

/-- A program that cannot be started. -/
theorem path_notStarted (argv : List Str) (f : Bool) :
    (execProg argv f).Path [⟨.spawn argv f, none⟩] ([], some (- EIO)) :=
  Program.path_send_bind.mpr ⟨none, [], .ret _, rfl⟩

theorem path_started (argv : List Str) (f : Bool) (stream : Str) (iStatus : Int) :
    (execProg argv f).Path [⟨.spawn argv f, some (stream, iStatus)⟩]
      (if WIFEXITED iStatus ∧ WEXITSTATUS iStatus = ENOENT then
        ((execProg.loop f stream).1, some (WEXITSTATUS iStatus))
      else execProg.loop f stream) := by
  refine Program.path_send_bind.mpr ⟨some (stream, iStatus), [], ?_, rfl⟩
  dsimp only
  split <;> exact .ret _

theorem obeys_execProgCalls (f : Bool) (turns : Nat) :
    (execProgCalls f turns).Obeys transcript .start fun r t =>
      ∀ argv result, r = some result → t.readFailed = false →
        (execProg argv f).Path [⟨.spawn argv f, t.answer⟩] result := by
  rw [execProgCalls]
  refine (obeys_kernelCalls obeys_spawnNew).bind fun r s hs => ?_
  cases r with
  | error strErr =>
    refine Program.obeys_pure fun argv result hresult _ => ?_
    obtain rfl := Option.some.inj hresult
    rw [Transcript.answer, if_neg (by rw [show s.started = false from hs]; decide)]
    exact path_notStarted argv f
  | ok cmd =>
    obtain rfl : s = .start := hs
    refine (obeys_reading cmd.m_pReadBuf.fd turns [] .start).bind fun r t ht => ?_
    cases r with
    | none => exact Program.obeys_pure nofun
    | some r =>
      obtain ⟨output, iError⟩ := r
      dsimp only
      refine (obeys_kernelCalls (obeys_closes (closes_sendEof cmd))).bind fun cmd' u hu => ?_
      refine (obeys_kernelCalls (obeys_wait cmd' turns)).bind fun r v hv => ?_
      cases r with
      | none => exact Program.obeys_pure nofun
      | some iExitCode =>
        refine (obeys_kernelCalls (obeys_closes (closes_destroy cmd'))).bind fun _ w hw => ?_
        have hresult : ∀ argv, w.readFailed = false → (execProg argv f).Path
            [⟨.spawn argv f, w.answer⟩]
            (if WIFEXITED iExitCode ∧ WEXITSTATUS iExitCode = ENOENT then
              (output, some (WEXITSTATUS iExitCode))
            else (output, iError)) := by
          intro argv hok
          rw [hw, hv _ rfl, hu] at hok ⊢
          obtain ⟨more, hreads, hloop⟩ := ht _ rfl hok
          have hpath := path_started argv f more iExitCode
          rw [hreads]
          rw [List.nil_append] at hloop
          rw [hloop] at hpath
          exact hpath
        split
        · rename_i hexit
          refine Program.obeys_pure fun argv result h hok => ?_
          obtain rfl := Option.some.inj h
          have := hresult argv hok
          rw [if_pos hexit] at this
          exact this
        · rename_i hexit
          refine Program.obeys_pure fun argv result h hok => ?_
          obtain rfl := Option.some.inj h
          have := hresult argv hok
          rw [if_neg hexit] at this
          exact this

/-! ## A child that comes to an end -/

section

variable {σ : Type} {h : Handler Piped σ} {output : σ → Str} {stops : σ → Nat}
  {source : σ → Nat → Prop} {room : Nat} {x : σ}

/-- The handler of the calls that read nothing. -/
def onKernel (h : Handler Piped σ) : Handler Kernel σ := fun op => h (.kernel op)

/-- A kernel and a child that writes and stops only finitely often: `output` is what was not read
yet of all that the child writes, `stops` bounds its stops, and `source` says which descriptor
reads what it writes. -/
structure Serves (h : Handler Piped σ) (output : σ → Str) (stops : σ → Nat)
    (source : σ → Nat → Prop) : Prop where
  /-- The child writes to the pipe that the constructor has made for it. -/
  started : ∀ x cmd, (Spawn.new.run (onKernel h) x).1 = .ok cmd →
    source (Spawn.new.run (onKernel h) x).2 cmd.m_pReadBuf.fd
  /-- A read gives the next piece, and nothing only at the end. -/
  read : ∀ fd x, source x fd → ∃ chunk, (h (.read fd) x).1 = .ok chunk ∧
    output x = chunk ++ output (h (.read fd) x).2 ∧ (chunk = [] → output x = []) ∧
      source (h (.read fd) x).2 fd ∧ stops (h (.read fd) x).2 ≤ stops x
  kernel : ∀ op x, output (h (.kernel op) x).2 = output x ∧
    stops (h (.kernel op) x).2 ≤ stops x
  stop : ∀ pid x iStatus, (h (.kernel (.waitpid pid)) x).1 = .ok iStatus →
    ¬ WIFEXITED iStatus ∧ ¬ WIFSIGNALED iStatus →
      stops (h (.kernel (.waitpid pid)) x).2 < stops x

/-- The calls that come back: reads of what the child writes, and a wait for a child that has no
more to write than the pipe holds. -/
def ComesBack (output : σ → Str) (source : σ → Nat → Prop) (room : Nat) (x : σ) : Piped.Op → Prop
  | .read fd => source x fd
  | .kernel (.waitpid _) => (output x).length ≤ room
  | .kernel _ => True

/-- A child that is not read any more behind a line with an error can still write the rest. -/
def FitsBehind (room : Nat) (stream : Str) : Prop :=
  ∀ done line rest, stream = done ++ (line ++ '\n' :: rest) → lineError line ≠ none →
    rest.length ≤ room

theorem FitsBehind.of_line {line rest : Str} (hfits : FitsBehind room (line ++ '\n' :: rest)) :
    FitsBehind room rest := by
  intro done line' rest' hrest herror
  refine hfits (line ++ '\n' :: done) line' rest' ?_ herror
  rw [hrest, List.append_assoc, List.cons_append]

/-- So it can when all that it writes fits. -/
theorem fitsBehind_of_length {stream : Str} (h : stream.length ≤ room) :
    FitsBehind room stream := by
  intro done line rest hstream _
  have hlength := congrArg List.length hstream
  simp only [List.length_append, List.length_cons] at hlength
  omega

/-- `getline` comes to what it comes to on all that is left, with its rest still there or still to
come. -/
theorem answers_getlineFrom (hserves : Serves h output stops source) {fd turns : Nat}
    (unread : Str) (hsource : source x fd) (hturns : (output x).length < turns) :
    (getlineFrom fd turns unread).Obeys (.answering (ComesBack output source room) h) x fun r y =>
      source y fd ∧ stops y ≤ stops x ∧
        (r = some .eof ∧ output y = [] ∨ ∃ line rest, r = some (.line line rest) ∧
          unread ++ output x = line ++ '\n' :: (rest ++ output y)) := by
  induction turns generalizing unread x with
  | zero => exact absurd hturns (Nat.not_lt_zero _)
  | succ turns ih =>
    rw [getlineFrom]
    split
    · rename_i line rest hline
      obtain ⟨rfl, -⟩ := getline_eq_some.mp hline
      refine Program.obeys_pure ⟨hsource, le_rfl, .inr ⟨line, rest, rfl, ?_⟩⟩
      rw [List.append_assoc, List.cons_append]
    · rename_i hnone
      obtain ⟨chunk, hread, houtput, hend, hsource', hstops⟩ := hserves.read fd x hsource
      refine Program.obeys_send_bind hsource fun r y hy => ?_
      change h (.read fd) x = (r, y) at hy
      rw [hy] at hread houtput hsource' hstops
      obtain rfl : r = .ok chunk := hread
      cases chunk with
      | nil =>
        have hnil : output y = [] := houtput.symm.trans (hend rfl)
        exact Program.obeys_pure ⟨hsource', hstops, .inl ⟨rfl, hnil⟩⟩
      | cons c chunk =>
        have hlength := congrArg List.length houtput
        rw [List.length_append, List.length_cons] at hlength
        refine (ih (unread ++ c :: chunk) hsource' (by omega)).mono fun r z hz => ?_
        obtain ⟨hsource'', hstops', hresult⟩ := hz
        refine ⟨hsource'', hstops'.trans hstops, ?_⟩
        rw [houtput, ← List.append_assoc]
        exact hresult

/-- The reading loop ends, and leaves no more to write than the pipe holds. -/
theorem answers_reading (hserves : Serves h output stops source) (f : Bool) {fd turns : Nat}
    (unread : Str) (hsource : source x fd)
    (hturns : unread.length + (output x).length < turns)
    (hfits : f = true → FitsBehind room (unread ++ output x)) :
    (execProg.reading f fd turns unread).Obeys (.answering (ComesBack output source room) h) x
      fun r y => (∃ result, r = some result) ∧ stops y ≤ stops x ∧ (output y).length ≤ room := by
  induction turns generalizing unread x with
  | zero => exact absurd hturns (Nat.not_lt_zero _)
  | succ turns ih =>
    rw [execProg.reading]
    have hless : (output x).length < turns + 1 := (Nat.le_add_left _ _).trans_lt hturns
    refine (answers_getlineFrom hserves unread hsource hless).bind fun r y hy => ?_
    obtain ⟨hsource', hstops, ⟨rfl, hnil⟩ | ⟨line, rest, rfl, hline⟩⟩ := hy
    · refine Program.obeys_pure ⟨⟨_, rfl⟩, hstops, ?_⟩
      rw [hnil]
      exact Nat.zero_le _
    · have hlength := congrArg List.length hline
      simp only [List.length_append, List.length_cons] at hlength
      dsimp only
      split
      · rename_i error herror
        refine Program.obeys_pure ⟨⟨_, rfl⟩, hstops, ?_⟩
        cases f with
        | false => cases herror
        | true =>
          have hlineError : lineError line ≠ none := by
            rw [show lineError line = some error from herror]
            exact Option.some_ne_none error
          have hroom := hfits rfl [] line (rest ++ output y) hline hlineError
          rw [List.length_append] at hroom
          omega
      · have hfits' : f = true → FitsBehind room (rest ++ output y) := by
          intro hf
          have hbehind := hfits hf
          rw [hline] at hbehind
          exact hbehind.of_line
        refine (ih rest hsource' (by omega) hfits').bind fun r z hz => ?_
        obtain ⟨⟨result, rfl⟩, hstops', hroom⟩ := hz
        exact Program.obeys_pure ⟨⟨_, rfl⟩, hstops'.trans hstops, hroom⟩

/-! ### The start and the end -/

/-- Every call but a wait comes back at once. -/
def Kernel.Op.Prompt : Kernel.Op → Prop
  | .waitpid _ => False
  | _ => True

theorem answers_prompt (hserves : Serves h output stops source) {p : Program Kernel α}
    (hp : p.Uses (S := Kernel) Kernel.Op.Prompt) (x : σ) :
    (kernelCalls p).Obeys (.answering (ComesBack output source room) h) x fun a y =>
      p.run (onKernel h) x = (a, y) ∧ output y = output x ∧ stops y ≤ stops x := by
  induction p generalizing x with
  | ret a => exact Program.obeys_pure ⟨rfl, rfl, le_rfl⟩
  | call op k ih =>
    have hanswers : ComesBack output source room x (.kernel op) := by
      cases op with
      | waitpid pid => exact hp.1.elim
      | _ => trivial
    refine Program.obeys_send_bind hanswers fun r y hy => ?_
    change h (.kernel op) x = (r, y) at hy
    obtain ⟨houtput, hstops⟩ := hserves.kernel op x
    rw [hy] at houtput hstops
    refine (ih r (hp.2 r) y).mono fun a z hz => ?_
    obtain ⟨hrun, houtput', hstops'⟩ := hz
    refine ⟨?_, houtput'.trans houtput, hstops'.trans hstops⟩
    rw [Program.run, onKernel, hy]
    exact hrun

theorem prompt_of_closes {p : Program Kernel α}
    (hp : p.Uses (S := Kernel) Kernel.Op.Closes) : p.Uses (S := Kernel) Kernel.Op.Prompt :=
  hp.mono fun op hop => by
    cases op with
    | close fd => trivial
    | _ => exact hop.elim

theorem prompt_cpipe : Cpipe.new.Uses (S := Kernel) Kernel.Op.Prompt := by
  refine Program.uses_bind (Program.uses_send trivial) fun r => ?_
  cases r <;> exact Program.uses_pure _

theorem prompt_new : Spawn.new.Uses (S := Kernel) Kernel.Op.Prompt := by
  rw [Spawn.new]
  refine Program.uses_bind prompt_cpipe fun r => ?_
  cases r with
  | error strErr => exact Program.uses_pure _
  | ok m_WritePipe =>
    refine Program.uses_bind prompt_cpipe fun r => ?_
    cases r with
    | error strErr =>
      exact Program.uses_bind (prompt_of_closes (closes_cpipe _)) fun _ => Program.uses_pure _
    | ok m_ReadPipe =>
      refine Program.uses_bind (Program.uses_send trivial) fun child => ?_
      cases child with
      | none =>
        exact Program.uses_bind (prompt_of_closes (closes_cpipe _)) fun _ =>
          Program.uses_bind (prompt_of_closes (closes_cpipe _)) fun _ => Program.uses_pure _
      | some m_iChildPid =>
        exact Program.uses_bind (Program.uses_send trivial) fun _ =>
          Program.uses_bind (Program.uses_send trivial) fun _ => Program.uses_pure _

/-- A child that is not stuck is waited for until it has ended. -/
theorem answers_wait (hserves : Serves h output stops source) (cmd : Spawn) {turns : Nat}
    (hturns : stops x < turns) (hroom : (output x).length ≤ room) :
    (kernelCalls (cmd.wait turns)).Obeys (.answering (ComesBack output source room) h) x
      fun r _ => ∃ iStatus, r = some iStatus := by
  induction turns generalizing x with
  | zero => exact absurd hturns (Nat.not_lt_zero _)
  | succ turns ih =>
    refine Program.obeys_send_bind hroom fun r y hy => ?_
    change h (.kernel (.waitpid cmd.m_iChildPid)) x = (r, y) at hy
    obtain ⟨houtput, -⟩ := hserves.kernel (.waitpid cmd.m_iChildPid) x
    have hstop := hserves.stop cmd.m_iChildPid x
    rw [hy] at houtput hstop
    dsimp only at houtput hstop
    cases r with
    | error errno => exact Program.obeys_pure ⟨_, rfl⟩
    | ok iStatus =>
      change (kernelCalls (if ¬ WIFEXITED iStatus ∧ ¬ WIFSIGNALED iStatus then cmd.wait turns
        else pure (some iStatus))).Obeys _ _ _
      split
      · rename_i hstopped
        have hless := hstop iStatus rfl hstopped
        rw [← houtput] at hroom
        exact ih (by omega) hroom
      · exact Program.obeys_pure ⟨_, rfl⟩

theorem answers_execProgCalls (hserves : Serves h output stops source) (f : Bool) {turns : Nat}
    (hturns : (output x).length + stops x < turns) (hfits : f = true → FitsBehind room (output x)) :
    (execProgCalls f turns).Obeys (.answering (ComesBack output source room) h) x
      fun r _ => ∃ result, r = some result := by
  rw [execProgCalls]
  refine (answers_prompt hserves prompt_new x).bind fun r y hy => ?_
  obtain ⟨hnew, houtput, hstops⟩ := hy
  cases r with
  | error strErr => exact Program.obeys_pure ⟨_, rfl⟩
  | ok cmd =>
    have hsource : source y cmd.m_pReadBuf.fd := by
      have hstarted := hserves.started x cmd
      rw [hnew] at hstarted
      exact hstarted rfl
    have hless : ([] : Str).length + (output y).length < turns := by
      rw [houtput, List.length_nil]
      omega
    rw [← houtput] at hfits
    refine (answers_reading hserves f [] hsource hless hfits).bind fun r z hz => ?_
    obtain ⟨⟨⟨output', iError⟩, rfl⟩, hstops', hroom⟩ := hz
    refine (answers_prompt hserves (prompt_of_closes (closes_sendEof cmd)) z).bind
      fun cmd' z' hz' => ?_
    obtain ⟨-, houtput', hstops''⟩ := hz'
    rw [← houtput'] at hroom
    have hwaits : stops z' < turns := by omega
    refine (answers_wait hserves cmd' hwaits hroom).bind fun r u hu => ?_
    obtain ⟨iExitCode, rfl⟩ := hu
    refine (answers_prompt hserves (prompt_of_closes (closes_destroy cmd')) u).bind
      fun _ u' _ => ?_
    split <;> exact Program.obeys_pure ⟨_, rfl⟩

theorem Transcript.after_kernel (s : Transcript) (op : Kernel.Op) (r : op.Res) :
    (s.after ⟨.kernel op, r⟩).readFailed = s.readFailed := by
  cases op with
  | close fd => rfl
  | _ => cases r <;> rfl

/-- No read fails in such a run. -/
theorem readFailed_of_follows (hserves : Serves h output stops source) {es : List (Event Piped)}
    {y : σ} (hfollows : (Protocol.answering (ComesBack output source room) h).Follows x es y)
    {s : Transcript} (hs : s.readFailed = false) :
    (es.foldl Transcript.after s).readFailed = false := by
  induction es generalizing s x with
  | nil => exact hs
  | cons e es ih =>
    obtain ⟨op, r⟩ := e
    obtain ⟨hanswers, x', hnext, hrest⟩ := hfollows
    refine ih hrest ?_
    cases op with
    | read fd =>
      obtain ⟨chunk, hread, -⟩ := hserves.read fd x hanswers
      change h (.read fd) x = (r, x') at hnext
      rw [hnext] at hread
      obtain rfl : r = .ok chunk := hread
      exact hs
    | kernel op => exact (s.after_kernel op r).trans hs

end

/-! ### A child that writes and stops -/

/-- What is still to come: the bytes, the places where they are cut, and the statuses. -/
structure Scripted where
  output : Str
  cuts : List Nat
  statuses : List Int

/-- A child with a script. The first piece has one byte more than the first number says. -/
def scripted : Handler Piped Scripted
  | .read _, ⟨output, n :: cuts, statuses⟩ =>
    (.ok (output.take (n + 1)), ⟨output.drop (n + 1), cuts, statuses⟩)
  | .read _, ⟨output, [], statuses⟩ => (.ok output, ⟨[], [], statuses⟩)
  | .kernel (.waitpid _), ⟨output, cuts, iStatus :: statuses⟩ =>
    (.ok iStatus, ⟨output, cuts, statuses⟩)
  | .kernel (.waitpid _), ⟨output, cuts, []⟩ => (.ok 0, ⟨output, cuts, []⟩)
  | .kernel .pipe, x => (.ok (3, 4), x)
  | .kernel .fork, x => (some 100, x)
  | .kernel (.close _), x => (.ok (), x)

theorem scripted_serves :
    Serves scripted Scripted.output (fun x => x.statuses.length) fun _ _ => True where
  started _ _ _ := trivial
  read fd x _ := by
    obtain ⟨output, _ | ⟨n, cuts⟩, statuses⟩ := x
    · exact ⟨output, rfl, (List.append_nil output).symm, fun hnil => hnil, trivial, le_rfl⟩
    · refine ⟨output.take (n + 1), rfl, (List.take_append_drop (n + 1) output).symm, ?_, trivial,
        le_rfl⟩
      intro hnil
      cases output with
      | nil => rfl
      | cons c output => cases hnil
  kernel op x := by
    cases op with
    | waitpid pid =>
      obtain ⟨output, cuts, _ | ⟨iStatus, statuses⟩⟩ := x
      · exact ⟨rfl, le_rfl⟩
      · exact ⟨rfl, Nat.le_succ _⟩
    | _ => exact ⟨rfl, le_rfl⟩
  stop pid x iStatus h hstop := by
    obtain ⟨output, cuts, _ | ⟨iStatus', statuses⟩⟩ := x
    · obtain rfl : 0 = iStatus := Except.ok.inj h
      exact absurd rfl hstop.1
    · exact Nat.lt_succ_self _

end AdbncFs
