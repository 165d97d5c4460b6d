import AdbncFs.Coherence.FreshFills
import AdbncFs.System.Threads
import AdbncFs.System.Wire

/-!
# Replies that are cut off

The callbacks cannot tell an answer that ended with the marker from one that ended with the
stream. `doStat` takes an empty answer for a path that does not exist, and leaves it in the
cache; `adbnc_opendir` takes every answer that is not empty for the whole listing.

The statements are about every run: any threads that make any calls, with their operations in
any order. The mutexes are left out, which only lets more orders through
(`Threads.exec_of_reaches`).
-/

namespace AdbncFs

open Text Interaction

/-! ## Events -/

/-- The device has answered a command. -/
def asked (c : Command) (o : Output) : Event DirSys := ⟨(.sys (.shell c) : DirSys.Op), o⟩

/-- `openDirs` was read. -/
def looked (dirs : OpenDirs) : Event DirSys := ⟨(.openDirs : DirSys.Op), dirs⟩

/-- A listing was put into `openDirs`. -/
def inserted (pcPath : Str) (output : Output) : Event DirSys :=
  ⟨(.insertDir pcPath output : DirSys.Op), ()⟩

def dirEvent (e : Event Sys) : Event DirSys := ⟨(.sys e.1 : DirSys.Op), e.2⟩

def sysOf : Event DirSys → Option (Event Sys)
  | ⟨.sys op, r⟩ => some ⟨op, r⟩
  | _ => none

/-- The operations on the world, without those on `openDirs`. -/
def sysPart (es : List (Event DirSys)) : List (Event Sys) := es.filterMap sysOf

theorem sysPart_append (es ds : List (Event DirSys)) :
    sysPart (es ++ ds) = sysPart es ++ sysPart ds := List.filterMap_append

theorem sysOf_eq_some {e : Event DirSys} {d : Event Sys} : sysOf e = some d ↔ e = dirEvent d := by
  obtain ⟨op, r⟩ := e
  cases op with
  | sys op =>
    constructor
    · intro h
      cases h
      rfl
    · rintro h
      cases h
      rfl
  | _ => exact ⟨nofun, nofun⟩

theorem mem_sysPart {es : List (Event DirSys)} {e : Event Sys} :
    e ∈ sysPart es ↔ dirEvent e ∈ es := by
  simp [sysPart, sysOf_eq_some]

theorem sysPart_map (es : List (Event Sys)) : sysPart (es.map dirEvent) = es := by
  rw [sysPart, List.filterMap_map]
  exact List.filterMap_some

theorem answered_sysPart {ε : Type} {env : Env ε} {es : List (Event DirSys)}
    {s s' : World ε × OpenDirs} (ha : Answered env.directories es s s') :
    Answered env.handle (sysPart es) s.1 s'.1 := by
  induction es generalizing s with
  | nil => exact congrArg Prod.fst ha
  | cons e es ih =>
    obtain ⟨op, r⟩ := e
    cases op with
    | sys op => exact ⟨ha.1, ih ha.2⟩
    | _ =>
      have hrest := ih ha.2
      exact hrest

/-! ## What a thread does before it stores an answer -/

/-- Every insertion of a listing comes right after the answer to the ls command that it puts, and
a look that has found no listing. -/
def InsertsFresh (es : List (Event DirSys)) : Prop :=
  ∀ pre p o post, es = pre ++ inserted p o :: post →
    ∃ pre' dirs, pre = pre' ++ [asked (.ls p) o, looked dirs] ∧ dirs p = none ∧ o ≠ []

def Fresh (es : List (Event DirSys)) : Prop := FillsFresh (sysPart es) ∧ InsertsFresh es

theorem InsertsFresh.append {es ds : List (Event DirSys)} (hes : InsertsFresh es)
    (hds : InsertsFresh ds) : InsertsFresh (es ++ ds) := by
  intro pre p o post h
  rcases append_eq_append_cons h with ⟨post', hpost⟩ | ⟨pre', rfl, hpre⟩
  · exact hes _ _ _ _ hpost
  · obtain ⟨pre, dirs, rfl, hfree⟩ := hds _ _ _ _ hpre
    exact ⟨es ++ pre, dirs, (List.append_assoc _ _ _).symm, hfree⟩

theorem Fresh.append {es ds : List (Event DirSys)} (hes : Fresh es) (hds : Fresh ds) :
    Fresh (es ++ ds) :=
  ⟨by rw [sysPart_append]; exact hes.1.append hds.1, hes.2.append hds.2⟩

/-- What has been done so far is fresh when all that will be done is. -/
theorem Fresh.of_append {es ds : List (Event DirSys)} (h : Fresh (es ++ ds)) : Fresh es := by
  constructor
  · rintro pre p o post hes
    refine h.1 pre p o (post ++ sysPart ds) ?_
    rw [sysPart_append, hes, List.append_assoc]
    rfl
  · rintro pre p o post rfl
    refine h.2 pre p o (post ++ ds) ?_
    rw [List.append_assoc]
    rfl

theorem fresh_of_sys {es : List (Event Sys)} (h : FillsFresh es) : Fresh (es.map dirEvent) := by
  refine ⟨by rwa [sysPart_map], fun pre p o post hes => ?_⟩
  have hmem : inserted p o ∈ es.map dirEvent := by
    rw [hes]
    simp
  obtain ⟨e, -, he⟩ := List.mem_map.mp hmem
  cases he

/-! ## What a call does -/

section

variable {α β : Type}

/-- A path of a program of operations on the world. -/
theorem path_dirSys {p : Program Sys α} {es : List (Event DirSys)} {a : α}
    (h : (p.expand fun op => Program.send (S := DirSys) (.sys op)).Path es a) :
    ∃ ds, es = ds.map dirEvent ∧ p.Path ds a := by
  induction p generalizing es with
  | ret b =>
    cases h
    exact ⟨[], rfl, .ret _⟩
  | call op k ih =>
    cases h with
    | call r h =>
      obtain ⟨ds, rfl, hds⟩ := ih r h
      exact ⟨⟨op, r⟩ :: ds, rfl, .call (S := Sys) r hds⟩

theorem locked_fresh {p : Program Sys α} (h : p.EachPath FillsFresh) :
    (alone (locked p)).EachPath Fresh := by
  intro es a hpath
  have halone : alone (locked p) = p.expand _ := alone_expand alone_lockedOp p
  rw [halone] at hpath
  obtain ⟨ds, rfl, hds⟩ := path_dirSys hpath
  exact fresh_of_sys (h ds a hds)

theorem statfs_fresh (p : Str) : (adbnc_statfs p).EachPath FillsFresh := by
  rw [adbnc_statfs]
  split
  · refine fresh_bind (fresh_send trivial) fun o => ?_
    dsimp only
    split
    · exact fresh_bind (fresh_send trivial) fun _ => fresh_pure _
    · exact fresh_pure _
  · exact fresh_pure _

theorem readdir_fresh (dirs : OpenDirs) (p : Str) (b : β) (filler : Filler β) (o : Int) :
    (adbnc_readdir dirs p b filler o).EachPath FillsFresh := by
  have hloop : ∀ n i entries b,
      (adbnc_readdir.loop p filler o n i entries b).EachPath FillsFresh := by
    intro n i entries b
    induction entries generalizing i b with
    | nil => exact fresh_pure _
    | cons entry entries ih =>
      rw [adbnc_readdir.loop]
      split
      · split
        · exact ih _ _
        · split
          · exact ih _ _
          · refine fresh_bind (fresh_bind (statOutput_fresh _) fun _ => fresh_pure _) fun r => ?_
            dsimp only
            split
            · exact ih _ _
            · split
              · exact fresh_pure _
              · exact ih _ _
      · exact fresh_pure _
  rw [adbnc_readdir]
  split
  · exact fresh_pure _
  · exact fresh_bind (hloop _ _ _ _) fun _ => fresh_pure _

/-- Neither a fill nor an insertion. -/
theorem fresh_of_none {es : List (Event DirSys)} (hfill : ∀ e ∈ sysPart es, Sys.Op.NoFill e.1)
    (hins : ∀ p o, inserted p o ∉ es) : Fresh es := by
  refine ⟨fillsFresh_of_noFill hfill, ?_⟩
  rintro pre p o post rfl
  exact absurd (by simp) (hins p o)

theorem fresh_nil : Fresh [] := fresh_of_none (by simp [sysPart]) (by simp)

theorem fresh_send_other (op : DirSys.Op) (hsys : ∀ op', op ≠ .sys op')
    (hins : ∀ p o, op ≠ .insertDir p o) : (Program.send (S := DirSys) op).EachPath Fresh := by
  refine Program.eachPath_send fun r => fresh_of_none (fun e he => ?_) fun p o he => ?_
  · have hmem := List.mem_singleton.mp (mem_sysPart.mp he)
    exact absurd (congrArg Sigma.fst hmem).symm (hsys e.1)
  · exact absurd (congrArg Sigma.fst (List.mem_singleton.mp he)).symm (hins p o)

theorem fresh_asked (c : Command) (o : Output) : Fresh [asked c o] := by
  have hfills : FillsFresh [⟨(.shell c : Sys.Op), o⟩] :=
    fillsFresh_of_noFill fun e he => by rw [List.mem_singleton.mp he]; trivial
  exact fresh_of_sys hfills

theorem fresh_looked (dirs : OpenDirs) : Fresh [looked dirs] :=
  fresh_send_other .openDirs nofun nofun _ dirs (Program.path_send.mpr rfl)

/-- An insertion after the answer and the look that it goes by. -/
theorem fresh_insertion {p : Str} {o : Output} {dirs : OpenDirs} (hdir : dirs p = none)
    (ho : o ≠ []) : Fresh [asked (.ls p) o, looked dirs, inserted p o] := by
  refine ⟨(fresh_asked (.ls p) o).1, fun pre q o' post h => ?_⟩
  rcases pre with _ | ⟨a, _ | ⟨b, _ | ⟨c, pre⟩⟩⟩
  · cases h
  · cases h
  · cases h
    exact ⟨[], dirs, rfl, hdir, ho⟩
  · cases pre <;> cases h

theorem opendir_fresh (p : Str) : (alone (threadedOpendir p)).EachPath Fresh := by
  rw [threadedOpendir, alone_exclusive]
  simp only [alone_bind, alone_await, alone_ite, alone_pure, pure_bind]
  intro es a hpath
  obtain ⟨o, es₂, hrest, rfl⟩ := Program.path_send_bind.mp hpath
  split at hrest
  · rename_i ho
    obtain ⟨dirs, es₄, hlooked, rfl⟩ := Program.path_send_bind.mp hrest
    cases hdir : dirs p with
    | none =>
      rw [hdir] at hlooked
      obtain ⟨u, es₆, hret, rfl⟩ := Program.path_send_bind.mp hlooked
      obtain ⟨rfl, -⟩ := Program.path_pure.mp hret
      exact fresh_insertion hdir ho
    | some listing =>
      rw [hdir] at hlooked
      obtain ⟨rfl, -⟩ := Program.path_pure.mp hlooked
      exact (fresh_asked _ o).append (fresh_looked dirs)
  · obtain ⟨rfl, -⟩ := Program.path_pure.mp hrest
    exact fresh_asked _ o

theorem call_fresh (g : Globals) (c : FuseCall β) : (alone (c.threaded g)).EachPath Fresh := by
  cases c with
  | callback c =>
    have halone := alone_callback g c
    change (alone (c.threaded g)).EachPath Fresh
    rw [halone]
    exact locked_fresh (callback_fresh g c)
  | statfs p => exact locked_fresh (statfs_fresh p)
  | opendir p => exact opendir_fresh p
  | readdir p b filler o =>
    exact Program.eachPath_bind Fresh.append (fresh_send_other _ nofun nofun)
      fun dirs => locked_fresh (readdir_fresh dirs p b filler o)
  | releasedir p =>
    have halone : alone (threadedReleasedir p) =
        Program.send (S := DirSys) (.eraseDir p) >>= fun _ => pure 0 := rfl
    change (alone (threadedReleasedir p)).EachPath Fresh
    rw [halone]
    exact Program.eachPath_bind Fresh.append (fresh_send_other _ nofun nofun)
      fun _ => Program.eachPath_pure fresh_nil _

theorem thread_fresh (g : Globals) (calls : Program (Fuse β) α) :
    (alone (fuseThread g calls)).EachPath Fresh := by
  have halone : alone (fuseThread g calls) =
      calls.expand fun c : FuseCall β => alone (c.threaded g) := alone_expand (fun _ => rfl) calls
  rw [halone]
  clear halone
  induction calls with
  | ret a => exact Program.eachPath_pure fresh_nil a
  | call c k ih => exact Program.eachPath_bind Fresh.append (call_fresh g c) ih

end

/-! ## Runs -/

section

variable {δ ι α β : Type} [DecidableEq ι] {raw : RawEnv δ}

/-- At the beginning nothing is cached and no directory is open. -/
def startWith (status : FileStatus) (wire : Wire δ) : World (Wire δ) × OpenDirs :=
  (⟨FileCache.empty, status, wire⟩, fun _ => none)

/-- The operations done by threads that make the calls, when they are given their steps in the
order of `is`. -/
def fuseRun (raw : RawEnv δ) (g : Globals) (calls : ι → Program (Fuse β) α)
    (start : World (Wire δ) × OpenDirs) (is : List ι) : Trace DirSys ι :=
  (Pool.exec raw.wired.directories is ⟨fun i => alone (fuseThread g (calls i)), start⟩).1

variable (raw) in
/-- The connection after the beginning `τ` of a run. -/
def wireAfter (start : World (Wire δ) × OpenDirs) (τ : Trace DirSys ι) : Wire δ :=
  (after raw.wired.directories (τ.map Prod.snd) start).1.env

variable (raw) in
/-- In the run `τ` the command `c`, sent over the connection `s`, is answered `o`. -/
def Exchanged (start : World (Wire δ) × OpenDirs) (τ : Trace DirSys ι) (c : Command) (s : Wire δ)
    (o : Output) : Prop :=
  ∃ pre i post, τ = pre ++ (i, asked c o) :: post ∧ s = wireAfter raw start pre

/-- Some entries of a listing. -/
def ProperPart (o listing : Output) : Prop := o.Sublist listing ∧ o ≠ listing

/-- No reply that is cut off is taken for an answer. -/
structure CutOffNotTaken (v : BusyBox raw) (start : World (Wire δ) × OpenDirs)
    (τ : Trace DirSys ι) : Prop where
  /-- Whatever is cut off of the reply about a path that is there, the answer does not stand for
  a path that is not there. -/
  stat : ∀ p s o, Exchanged raw start τ (.stat p) s o → v.Has s.device p →
    s.CutOff raw (.stat p) → o ≠ [] ∧ ∀ fTokens, (statResult fTokens o).1 ≠ -ENOENT
  /-- Where `doStat` returns -ENOENT, it goes by the answer of an exchange that was not such. -/
  doStat : ∀ i p fTokens as ds bs r, sysPart (proj i τ) = as ++ ds ++ bs →
    (doStat p fTokens).Path ds r → r.1 = -ENOENT →
      ∃ s o, Exchanged raw start τ (.stat p) s o ∧ r = statResult fTokens o ∧
        ¬ (v.Has s.device p ∧ s.CutOff raw (.stat p))
  /-- Where an empty output is put into the cache, it is the answer of an exchange that was not
  such. -/
  cached : ∀ i p, (i, dirEvent (filled p [])) ∈ τ →
    ∃ s, Exchanged raw start τ (.stat p) s [] ∧ ¬ (v.Has s.device p ∧ s.CutOff raw (.stat p))
  /-- The listing that an `adbnc_opendir` stores is the answer to its ls command, and no proper
  part of what the command wrote when the reply is cut off. -/
  stored : ∀ pre i p o post, τ = pre ++ (i, inserted p o) :: post →
    ∃ pre' mid dirs, pre = pre' ++ (i, asked (.ls p) o) :: mid ∧ proj i mid = [looked dirs] ∧
      ((wireAfter raw start pre').CutOff raw (.ls p) →
        ¬ ProperPart o (lines ((wireAfter raw start pre').written raw (.ls p))))

/-- No step of the run comes to the end of the stream at a bad place. -/
structure StepsSound (v : BusyBox raw) (start : World (Wire δ) × OpenDirs)
    (τ : Trace DirSys ι) : Prop where
  /-- A reply about a path that is there is not cut off before the end of what is written, and
  the path survives its quotes. -/
  stat : ∀ p s o, Exchanged raw start τ (.stat p) s o → v.Has s.device p →
    s.CutOff raw (.stat p) → '\'' ∉ p ∧ s.Whole raw (.stat p)
  /-- A listing of a directory that is not open is cut off within the first line, or not before
  the end of what is written. -/
  ls : ∀ pre i p o mid dirs post,
    τ = pre ++ (i, asked (.ls p) o) :: (mid ++ (i, looked dirs) :: post) → proj i mid = [] →
      dirs p = none → (wireAfter raw start pre).CutOff raw (.ls p) →
        (wireAfter raw start pre).NoLine raw (.ls p) ∨
          (wireAfter raw start pre).Whole raw (.ls p)

/-- What is used of a run. -/
structure FreshRun (raw : RawEnv δ) (start : World (Wire δ) × OpenDirs) (τ : Trace DirSys ι) :
    Prop where
  fresh : ∀ i, Fresh (proj i τ)
  answered : ∃ s, Answered raw.wired.directories (τ.map Prod.snd) start s
  empty : start.1.fileCache = FileCache.empty

theorem freshRun_fuseRun (raw : RawEnv δ) (g : Globals) (calls : ι → Program (Fuse β) α)
    (status : FileStatus) (wire : Wire δ) (is : List ι) :
    FreshRun raw (startWith status wire)
      (fuseRun raw g calls (startWith status wire) is) := by
  refine ⟨fun i => ?_, ⟨_, Pool.exec_answered _ _ _⟩, rfl⟩
  obtain ⟨es, a, hpath⟩ := Pool.exec_prefix raw.wired.directories is
    ⟨fun i => alone (fuseThread g (calls i)), startWith status wire⟩ i
  exact (thread_fresh g (calls i) _ a hpath).of_append

namespace FreshRun

variable {start : World (Wire δ) × OpenDirs} {τ : Trace DirSys ι} (h : FreshRun raw start τ)

include h

/-- An exchange is answered as the connection then answers. -/
theorem exec_of_asked {pre post : Trace DirSys ι} {i : ι} {c : Command} {o : Output}
    (hτ : τ = pre ++ (i, asked c o) :: post) :
    o = (raw.exec c (wireAfter raw start pre)).1 := by
  obtain ⟨s, ha⟩ := h.answered
  rw [hτ, List.map_append, List.map_cons] at ha
  obtain ⟨t, hpre, hanswer, -⟩ := answered_append.mp ha
  rw [wireAfter, ← hpre.eq_after]
  exact hanswer

omit h [DecidableEq ι] in
theorem exchanged_of_mem {i : ι} {c : Command} {o : Output} (hmem : (i, asked c o) ∈ τ) :
    ∃ s, Exchanged raw start τ c s o := by
  obtain ⟨pre, post, hτ⟩ := List.append_of_mem hmem
  exact ⟨_, pre, i, post, hτ, rfl⟩

/-- What is put into the cache is the answer of an exchange. -/
theorem exchanged_of_filled {i : ι} {p : Str} {o : Output}
    (hmem : (i, dirEvent (filled p o)) ∈ τ) : ∃ s, Exchanged raw start τ (.stat p) s o := by
  have hsys : filled p o ∈ sysPart (proj i τ) := mem_sysPart.mpr (mem_proj.mpr hmem)
  obtain ⟨pre, post, hpart⟩ := List.append_of_mem hsys
  obtain ⟨pre', rfl⟩ := (h.fresh i).1 pre p o post hpart
  have hfetched : fetched p o ∈ sysPart (proj i τ) := by simp [hpart]
  exact exchanged_of_mem (mem_proj.mp (mem_sysPart.mp hfetched))

/-- What comes from the cache was put there in the run. -/
theorem filled_of_hit {i : ι} {p : Str} {o : Output}
    (hmem : (i, dirEvent ⟨(.cacheGet .stat p : Sys.Op), some o⟩) ∈ τ) :
    ∃ j, (j, dirEvent (filled p o)) ∈ τ := by
  obtain ⟨pre, post, rfl⟩ := List.append_of_mem hmem
  obtain ⟨s, ha⟩ := h.answered
  rw [List.map_append, List.map_cons] at ha
  obtain ⟨t, hpre, hanswer, -⟩ := answered_append.mp ha
  have hkept : t.1.fileCache.kept .stat p = some o := FileCache.kept_of_get (Eq.symm hanswer)
  rcases fill_of_kept (answered_sysPart hpre) hkept with ⟨as, bs, hfill, -⟩ | ⟨hstart, -⟩
  · have hmem : filled p o ∈ sysPart (pre.map Prod.snd) := by simp [hfill]
    obtain ⟨⟨j, e⟩, hj, he⟩ := List.mem_map.mp (mem_sysPart.mp hmem)
    obtain rfl : e = _ := he
    exact ⟨j, List.mem_append_left _ hj⟩
  · rw [h.empty] at hstart
    cases hstart

/-- `doStat` goes by the answer of an exchange. -/
theorem exchanged_of_doStat {i : ι} {p : Str} {fTokens : Bool} {as ds bs : List (Event Sys)}
    {r : Int × List Str} (hpart : sysPart (proj i τ) = as ++ ds ++ bs)
    (hpath : (doStat p fTokens).Path ds r) :
    ∃ s o, Exchanged raw start τ (.stat p) s o ∧ r = statResult fTokens o := by
  have hmem : ∀ e ∈ ds, (i, dirEvent e) ∈ τ := fun e he =>
    mem_proj.mp (mem_sysPart.mp (by simp [hpart, he]))
  obtain ⟨es₁, o, es₂, hout, hret, rfl⟩ := Program.path_bind.mp hpath
  obtain ⟨-, rfl⟩ := Program.path_pure.mp hret
  suffices hex : ∃ s, Exchanged raw start τ (.stat p) s o by
    obtain ⟨s, hs⟩ := hex
    exact ⟨s, o, hs, rfl⟩
  obtain ⟨hit, es₄, hrest, rfl⟩ := Program.path_send_bind.mp hout
  cases hit with
  | some x =>
    obtain ⟨-, rfl⟩ := Program.path_pure.mp hrest
    have hhit : (i, dirEvent ⟨(.cacheGet .stat p : Sys.Op), some o⟩) ∈ τ := hmem _ (by simp)
    obtain ⟨j, hj⟩ := h.filled_of_hit hhit
    exact h.exchanged_of_filled hj
  | none =>
    obtain ⟨x, es₆, hput, rfl⟩ := Program.path_send_bind.mp hrest
    obtain ⟨es₇, u, es₈, hfill, hret, rfl⟩ := Program.path_bind.mp hput
    obtain ⟨-, rfl⟩ := Program.path_pure.mp hret
    have hasked : (i, asked (.stat p) o) ∈ τ := hmem (fetched p o) (by simp [fetched])
    exact exchanged_of_mem hasked

variable {v : BusyBox raw} (hsteps : StepsSound v start τ)

include hsteps

/-- A reply about a path that is there is not cut off where `doStat` would fail with it. -/
theorem succeeds_of_cutOff {p : Str} {s : Wire δ} {o : Output}
    (hex : Exchanged raw start τ (.stat p) s o) (hhas : v.Has s.device p)
    (hcut : s.CutOff raw (.stat p)) : o ≠ [] ∧ ∀ fTokens, (statResult fTokens o).1 = 0 := by
  obtain ⟨hquote, hwhole⟩ := hsteps.stat p s o hex hhas hcut
  obtain ⟨pre, i, post, hτ, rfl⟩ := hex
  rw [h.exec_of_asked hτ]
  exact v.whole_succeeds hhas hquote hwhole

/-- A listing that is stored is all that was written, when the reply is cut off. -/
theorem whole_of_inserted {pre post : Trace DirSys ι} {i : ι} {p : Str} {o : Output}
    (hτ : τ = pre ++ (i, inserted p o) :: post) :
    ∃ pre' mid dirs, pre = pre' ++ (i, asked (.ls p) o) :: mid ∧ proj i mid = [looked dirs] ∧
      ((wireAfter raw start pre').CutOff raw (.ls p) →
        o = lines ((wireAfter raw start pre').written raw (.ls p))) := by
  have hproj : proj i τ = proj i pre ++ inserted p o :: proj i post := by
    rw [hτ, proj_append, proj_cons_self]
  obtain ⟨es, dirs, hes, hdir, ho⟩ := (h.fresh i).2 _ p o _ hproj
  obtain ⟨pre', mid, rfl, -, hmid⟩ := proj_eq_append_cons hes
  refine ⟨pre', mid, dirs, rfl, hmid, fun hcut => ?_⟩
  rw [← List.nil_append [looked dirs]] at hmid
  obtain ⟨mid₁, mid₂, rfl, hmid₁, -⟩ := proj_eq_append_cons hmid
  have hanswer : o = _ := h.exec_of_asked (hτ.trans (List.append_assoc _ _ _))
  have hlook : τ = pre' ++ (i, asked (.ls p) o) ::
      (mid₁ ++ (i, looked dirs) :: (mid₂ ++ (i, inserted p o) :: post)) := by
    rw [hτ]
    simp
  rcases hsteps.ls pre' i p o mid₁ dirs _ hlook hmid₁ hdir hcut with hnone | hwhole
  · exact absurd (hanswer.trans hnone.answer) ho
  · exact hanswer.trans hwhole.answer

end FreshRun

/-- In every run whose steps are sound no reply that is cut off is taken for an answer. -/
theorem cut_off_not_taken (v : BusyBox raw) (g : Globals) (calls : ι → Program (Fuse β) α)
    (status : FileStatus) (wire : Wire δ) (is : List ι)
    (hsteps : StepsSound v (startWith status wire)
      (fuseRun raw g calls (startWith status wire) is)) :
    CutOffNotTaken v (startWith status wire)
      (fuseRun raw g calls (startWith status wire) is) := by
  have h := freshRun_fuseRun raw g calls status wire is
  have hne : (0 : Int) ≠ -ENOENT := by decide
  refine ⟨fun p s o hex hhas hcut => ?_, fun i p fTokens as ds bs r hpart hpath hr => ?_,
    fun i p hmem => ?_, fun pre i p o post hτ => ?_⟩
  · obtain ⟨ho, hzero⟩ := h.succeeds_of_cutOff hsteps hex hhas hcut
    exact ⟨ho, fun fTokens => by rw [hzero]; exact hne⟩
  · obtain ⟨s, o, hex, rfl⟩ := h.exchanged_of_doStat hpart hpath
    refine ⟨s, o, hex, rfl, fun ⟨hhas, hcut⟩ => ?_⟩
    rw [(h.succeeds_of_cutOff hsteps hex hhas hcut).2] at hr
    exact hne hr
  · obtain ⟨s, hex⟩ := h.exchanged_of_filled hmem
    exact ⟨s, hex, fun ⟨hhas, hcut⟩ => (h.succeeds_of_cutOff hsteps hex hhas hcut).1 rfl⟩
  · obtain ⟨pre', mid, dirs, hpre, hmid, hall⟩ := h.whole_of_inserted hsteps hτ
    exact ⟨pre', mid, dirs, hpre, hmid, fun hcut hpart => hpart.2 (hall hcut)⟩

end

/-! ## One file -/

/-- What `stat -t` writes for the file. -/
def fileReply : Str := "/a".toList ++ ' ' :: (smallRecord.text ++ ['\n'])

/-- A device with the file `/a`. -/
def RawEnv.oneFile : RawEnv Unit where
  time := Env.obliging.time
  output
    | .stat p, _ => (if p = "/a".toList then fileReply else [], ())
    | .ls _, _ => (".\n..\na\n".toList, ())
    | _, _ => ([], ())
  spawn := Env.obliging.spawn
  syscall := Env.obliging.syscall

def BusyBox.oneFile : BusyBox RawEnv.oneFile where
  record _ p := if p = "/a".toList then some smallRecord else none
  path := by
    intro _ p r h
    obtain ⟨rfl, -⟩ := Option.ite_none_right_eq_some.mp h
    decide
  stat_output := by
    intro _ p r h _
    obtain ⟨rfl, h⟩ := Option.ite_none_right_eq_some.mp h
    cases h
    change (if "/a".toList = "/a".toList then fileReply else []) = _
    rw [if_pos rfl]
    rfl

/-- A stream that ends after `n` bytes. -/
def Wire.ends (n : Nat) : Wire Unit := ⟨(), ⟨[], []⟩, n⟩

/-- The first operations of one thread with one call. -/
def oneCall (n : Nat) (call : FuseCall Unit) (is : List Unit) : Trace DirSys Unit :=
  fuseRun RawEnv.oneFile ⟨"/tmp".toList, none, none⟩
    (fun _ => Program.send (S := Fuse Unit) call >>= fun _ => pure ())
    (startWith FileStatus.empty (.ends n)) is

/-- The stat command for the file, sent as the first command. -/
abbrev firstStat (n : Nat) : Output := (RawEnv.oneFile.exec (.stat "/a".toList) (.ends n)).1

theorem oneCall_getattr (n : Nat) :
    oneCall n (.callback (.getattr "/a".toList)) [(), (), ()] =
      [((), dirEvent ⟨(.cacheGet .stat "/a".toList : Sys.Op), none⟩),
        ((), asked (.stat "/a".toList) (firstStat n)),
        ((), dirEvent (filled "/a".toList (firstStat n)))] := rfl

/-- The stream ends within the marker line. -/
def withinMarker : Nat := fileReply.length + 4

theorem cut_off_not_taken_withinMarker :
    CutOffNotTaken BusyBox.oneFile (startWith FileStatus.empty (.ends withinMarker))
      (oneCall withinMarker (.callback (.getattr "/a".toList)) [(), (), ()]) := by
  apply cut_off_not_taken
  change StepsSound _ _ (oneCall withinMarker (.callback (.getattr "/a".toList)) [(), (), ()])
  rw [oneCall_getattr]
  constructor
  · rintro p s o ⟨pre, i, post, hτ, rfl⟩ - -
    rcases pre with _ | ⟨a, _ | ⟨b, _ | ⟨c, pre⟩⟩⟩
    · cases hτ
    · cases hτ
      have hwhole : (Wire.ends withinMarker).Whole RawEnv.oneFile (.stat "/a".toList) := by
        decide +kernel
      exact ⟨by decide, hwhole⟩
    · cases hτ
    · cases pre <;> cases hτ
  · intro pre i p o mid dirs post hτ
    rcases pre with _ | ⟨a, _ | ⟨b, _ | ⟨c, pre⟩⟩⟩
    · cases hτ
    · cases hτ
    · cases hτ
    · cases pre <;> cases hτ

/-- The listing that is stored. -/
def insertionOf : Event DirSys → Option (Str × Output)
  | ⟨.insertDir p o, _⟩ => some (p, o)
  | _ => none

/-- A stream that ends after 3 bytes makes the file vanish, and the empty answer would be kept;
one that ends after 2 bytes leaves the root with one entry. -/
theorem cut_off_taken :
    ¬ CutOffNotTaken BusyBox.oneFile (startWith FileStatus.empty (.ends 3))
        (oneCall 3 (.callback (.getattr "/a".toList)) [(), (), ()]) ∧
      ¬ CutOffNotTaken BusyBox.oneFile (startWith FileStatus.empty (.ends 2))
        (oneCall 2 (.opendir ['/']) [(), (), ()]) := by
  constructor
  · intro h
    have hex : Exchanged RawEnv.oneFile (startWith FileStatus.empty (.ends 3))
        (oneCall 3 (.callback (.getattr "/a".toList)) [(), (), ()]) (.stat "/a".toList) (.ends 3)
        (firstStat 3) := by
      rw [oneCall_getattr]
      exact ⟨[_], (), [_], rfl, rfl⟩
    have hnone : Wire.NoLine RawEnv.oneFile (.stat "/a".toList) (.ends 3) := by
      have hline : getline (Wire.received RawEnv.oneFile (.stat "/a".toList) (.ends 3)) = none := by
        decide +kernel
      intro line rest h
      rw [hline] at h
      cases h
    have hhas : BusyBox.oneFile.Has () "/a".toList := Option.some_ne_none smallRecord
    have hcut : (Wire.ends 3).CutOff RawEnv.oneFile (.stat "/a".toList) := by decide +kernel
    exact (h.stat _ _ _ hex hhas hcut).1 hnone.answer
  · intro h
    have hshape : (oneCall 2 (.opendir ['/']) [(), (), ()]).map (fun x => insertionOf x.2) =
        [none, none, some (['/'], [['.']])] := by decide +kernel
    have hcut : (Wire.ends 2).CutOff RawEnv.oneFile (.ls ['/']) := by decide +kernel
    have hpart : ProperPart [['.']] (lines ((Wire.ends 2).written RawEnv.oneFile (.ls ['/']))) := by
      unfold ProperPart
      decide +kernel
    obtain ⟨x, y, z, hτ⟩ : ∃ x y z, oneCall 2 (.opendir ['/']) [(), (), ()] = [x, y, z] :=
      List.length_eq_three.mp (by decide +kernel)
    rw [hτ] at h hshape
    simp only [List.map_cons, List.cons.injEq] at hshape
    obtain ⟨-, -, hz, -⟩ := hshape
    obtain rfl : z = ((), inserted ['/'] [['.']]) := by
      obtain ⟨i, op, r⟩ := z
      cases op with
      | insertDir p o =>
        cases hz
        rfl
      | _ => cases hz
    obtain ⟨pre, mid, dirs, hpre, hmid, hwhole⟩ := h.stored [x, y] () ['/'] [['.']] [] rfl
    cases pre with
    | nil => exact hwhole hcut hpart
    | cons a pre =>
      have hlen := congrArg List.length hpre
      simp only [List.length_cons, List.length_append, List.length_nil] at hlen
      obtain rfl : mid = [] := List.length_eq_zero_iff.mp (by omega)
      cases hmid

end AdbncFs
