import AdbncFs.Names.LocalCopies
import AdbncFs.System.Conduct

/-!
# What the callbacks do on the local host

`fileExists` asks for any path of the local host, but that is all. Whatever calls any number
of threads make, in whatever order they are given their steps, and whatever the device and the
host answer: they open, truncate, make and remove only files directly in the temporary
directory, and the only programs they start are transfers of such files (`threads_confined`).
The one path that does not come from `makeLocalPath` at the call itself is the one that
`FileStatus` keeps of a renamed file, so the invariant is about these.
-/

namespace AdbncFs

open Text Interaction

/-! ## What is inside -/

variable (g : Globals)

/-- A file directly in the temporary directory. Its name starts with a dash, so it is not the
directory itself or the one above. -/
def Globals.Inside (path : Str) : Prop :=
  ∃ name, path = g.pcTempDir ++ '/' :: '-' :: name ∧ '/' ∉ name

theorem Globals.inside_localPath {p : Str} (hp : p.head? = some '/') :
    g.Inside (g.localPath p) := by
  cases p with
  | nil => cases hp
  | cons c p =>
    obtain rfl := Option.some.inj hp
    refine ⟨p.map (swapChar '/' '-'), ?_, slash_not_mem_map_swapChar p⟩
    rw [localPath, makeLocalPath_eq, strTempDirPath, List.append_assoc]
    rfl

/-- The local files of renamed paths are inside. -/
def FileStatus.Inside (s : FileStatus) : Prop :=
  ∀ p, (s.entry p).m_strRenamedFromLocal = [] ∨ g.Inside (s.entry p).m_strRenamedFromLocal

/-- What a callback may do. -/
def Sys.Op.Confined : Sys.Op → Prop
  | .syscall (.open' path _) | .syscall (.truncate path _) | .syscall (.mknod path _ _)
  | .syscall (.unlink path) => g.Inside path
  | .spawn argv _ => ∃ fPush l p, argv = adbArgv fPush l p ∧ g.Inside l
  | .setFileStatus f => ∀ s : FileStatus, s.Inside g → (f s).Inside g
  | _ => True

def confined : Conduct where
  keeps s := s.Inside g
  may op := op.Confined g
  push strLocalSource _ := g.Inside strLocalSource
  asks _ := True
  lists _ := True

/-- FUSE names files by absolute paths. -/
def Callback.Absolute : Callback → Prop
  | .rename pcFrom pcTo => pcFrom.head? = some '/' ∧ pcTo.head? = some '/'
  | .getattr p | .access p _ | .readlink p _ | .open' p _ | .read p _ _ _ | .write p _ _ _
  | .flush p _ | .fsync p _ | .release p _ | .truncate p _ | .utimens p | .mknod p _ _ | .mkdir p
  | .rmdir p | .unlink p => p.head? = some '/'

def FuseCall.Absolute {β : Type} : FuseCall β → Prop
  | .callback c => c.Absolute
  | .statfs p | .opendir p | .readdir p _ _ _ | .releasedir p => p.head? = some '/'

variable {g} {p : Str}

theorem marks_confined {f : FileStatus.Entry → FileStatus.Entry} (p : Str)
    (hf : ∀ e : FileStatus.Entry, (f e).m_strRenamedFromLocal = e.m_strRenamedFromLocal ∨
      (f e).m_strRenamedFromLocal = [] ∨ g.Inside (f e).m_strRenamedFromLocal) :
    (confined g).Marks (·.modify p f) := by
  intro s hs q
  rw [FileStatus.entry_modify]
  by_cases hq : q = p
  · rw [if_pos hq]
    rcases hf (s.entry p) with hsame | hf
    · rw [hsame]
      exact hs p
    · exact hf
  · rw [if_neg hq]
    exact hs q

theorem letsAsk_confined : (confined g).LetsAsk where
  cacheGet _ _ := trivial
  cachePut _ _ _ := trivial
  invalidate _ := trivial
  shell _ _ _ := trivial
  syscall c hc := by
    cases c with
    | open' | truncate | mknod | unlink => exact hc.elim
    | _ => trivial
  entry _ _ _ _ := trivial

theorem letsPush_confined : (confined g).LetsPush := fun l r hl =>
  ⟨trivial, true, l, r, rfl, hl⟩

/-- The file that a flush sends is the renamed one, or the local copy. -/
theorem inside_source (hp : p.head? = some '/') {s : FileStatus} (hs : s.Inside g) :
    g.Inside (Conduct.source g s p) := by
  rw [Conduct.source]
  split
  · rename_i hne
    exact (hs p).resolve_left hne
  · exact g.inside_localPath hp

theorem lets_confined {c : Callback} (hc : c.Absolute) : (confined g).Lets g c := by
  have hsame : ∀ p f, (∀ e : FileStatus.Entry,
      (f e).m_strRenamedFromLocal = e.m_strRenamedFromLocal) →
      (confined g).Marks (·.modify p f) := fun p f hf => marks_confined p fun e => Or.inl (hf e)
  cases c with
  | getattr | access | readlink => trivial
  | open' p pFi =>
    exact ⟨trivial, ⟨false, _, p, rfl, g.inside_localPath hc⟩, fun _ => g.inside_localPath hc,
      hsame p _ fun _ => rfl⟩
  | read p | write p | release p => exact hsame p _ fun _ => rfl
  | flush p pFi =>
    exact ⟨hsame p _ fun _ => rfl, marks_confined p fun _ => Or.inr (Or.inl rfl),
      fun s hs _ => inside_source hc hs⟩
  | fsync p pFi => exact ⟨g.inside_localPath hc, hsame p _ fun _ => rfl⟩
  | truncate p iSize => exact ⟨trivial, g.inside_localPath hc, hsame p _ fun _ => rfl⟩
  | utimens | mkdir | rmdir => trivial
  | mknod p mode rdev => exact ⟨g.inside_localPath hc, g.inside_localPath hc⟩
  | rename pcFrom pcTo =>
    exact ⟨trivial, marks_confined pcTo fun _ => Or.inr (Or.inr (g.inside_localPath hc.1))⟩
  | unlink p => exact ⟨g.inside_localPath hc, trivial⟩

/-! ## Every interleaving -/

variable {α β ε ι : Type} [DecidableEq ι]

/-- Whatever calls the threads make and however their operations are interleaved, they stay in
the temporary directory. -/
theorem threads_confined (g : Globals) (env : Env ε) {calls : ι → Program (Fuse β) α}
    (hcalls : ∀ i, (calls i).Uses (S := Fuse β) FuseCall.Absolute) {start : World ε × OpenDirs}
    (hstart : start.1.fileStatus.Inside g) (is : List ι) :
    ∀ i (e : Event Sys), (i, (⟨.sys e.1, e.2⟩ : Event DirSys)) ∈
      (Pool.exec env.directories is ⟨fun i => alone (fuseThread g (calls i)), start⟩).1 →
        e.1.Confined g := by
  intro i e he
  have hlets : ∀ i, (calls i).Uses (S := Fuse β) ((confined g).LetsCall g) := fun i =>
    (hcalls i).mono fun c hc => by
      cases c with
      | callback c => exact lets_confined hc
      | _ => trivial
  have hkeeps : (confined g).Keeps start := ⟨hstart, fun _ _ _ _ _ => trivial⟩
  have hallows := Conduct.threads_allow letsAsk_confined letsPush_confined env
    (fun _ _ _ _ => trivial) hlets hkeeps is i e he
  obtain ⟨op, r⟩ := e
  cases op with
  | fileStatus => trivial
  | _ => exact hallows

/-- One thread opens a file and another one removes it. -/
def openAndUnlink : Bool → Program (Fuse Unit) Int
  | false => .send (S := Fuse Unit) (.callback (.open' ['/', 'a'] ⟨0, 0⟩))
  | true => .send (S := Fuse Unit) (.callback (.unlink ['/', 'a']))

theorem threads_confined_openAndUnlink :
    let trace := (Pool.exec Env.obliging.directories [false, true, false, true, false, true]
      ⟨fun i => alone (fuseThread exampleGlobals (openAndUnlink i)),
        (World.start, fun _ => none)⟩).1
    (true, (⟨.sys (.syscall (.unlink (exampleGlobals.localPath ['/', 'a']))), Except.ok 0⟩ :
      Event DirSys)) ∈ trace ∧
    ∀ i (e : Event Sys), (i, (⟨.sys e.1, e.2⟩ : Event DirSys)) ∈ trace →
      e.1.Confined exampleGlobals := by
  refine ⟨?_, ?_⟩
  · exact .tail _ (.tail _ (.tail _ (.head _)))
  · refine threads_confined exampleGlobals Env.obliging (fun i => ?_) (fun p => Or.inl rfl) _
    cases i <;> exact Program.uses_send rfl

end AdbncFs
