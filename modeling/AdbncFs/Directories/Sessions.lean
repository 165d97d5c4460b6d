import AdbncFs.Directories.Listing

/-!
# Directories opened by several clients

A directory that is open has one listing in `openDirs`, however many clients have opened it.
`adbnc_opendir` keeps a listing that is there, and `adbnc_releasedir` takes it away from all
of them. A run is any sequence of calls that the clients make, with changes of the rest of the
world in between.
-/

namespace AdbncFs

open Text Interaction Function

/-- A call on directories, or a change of the world that leaves `openDirs` alone: other
callbacks, other users of the device. -/
inductive DirCall (ε β : Type)
  | opendir (pcPath : Str)
  | readdir (pcPath : Str) (vpBuf : β) (filler : Filler β) (iOffset : Int)
  | releasedir (pcPath : Str)
  | elsewhere (f : World ε → World ε)

/-- What a call gives: its result, the listing that it puts into `openDirs`, and the listing
that it reads from there. -/
structure DirOutcome where
  result : Int
  inserted : Option Output
  served : Option Output
  deriving DecidableEq

section

variable {ε β κ : Type} (env : Env ε)

/-- A call by a client of `κ`. -/
def DirCall.step : κ × DirCall ε β → World ε × OpenDirs → DirOutcome × (World ε × OpenDirs)
  | (_, opendir p), (w, openDirs) =>
    let r := (adbnc_opendir openDirs p).run env.handle w
    let inserted := match openDirs p with
      | none => r.1.2 p
      | some _ => none
    (⟨r.1.1, inserted, none⟩, (r.2, r.1.2))
  | (_, readdir p vpBuf filler iOffset), (w, openDirs) =>
    let r := (adbnc_readdir openDirs p vpBuf filler iOffset).run env.handle w
    (⟨r.1.1, none, openDirs p⟩, (r.2, openDirs))
  | (_, releasedir p), (w, openDirs) =>
    let r := adbnc_releasedir openDirs p
    (⟨r.1, none, none⟩, (w, r.2))
  | (_, elsewhere f), (w, openDirs) => (⟨0, none, none⟩, (f w, openDirs))

/-- The directory is opened with success. -/
def DirOpened (p : Str) (e : (κ × DirCall ε β) × DirOutcome) : Prop :=
  e.1.2 = .opendir p ∧ e.2.result = 0

/-- The directory is opened, and the listing is put into `openDirs`. -/
def DirInserted (p : Str) (output : Output) (e : (κ × DirCall ε β) × DirOutcome) : Prop :=
  e.1.2 = .opendir p ∧ e.2.inserted = some output

/-- The directory is not released. -/
def DirKept (p : Str) (e : (κ × DirCall ε β) × DirOutcome) : Prop := e.1.2 ≠ .releasedir p

variable {env}

/-! ## What a call does to `openDirs` -/

theorem run_opendir (env : Env ε) (openDirs : OpenDirs) (p : Str) (w : World ε) :
    ((adbnc_opendir openDirs p).run env.handle w).1 = (- EIO, openDirs) ∨
      ∃ output, ((adbnc_opendir openDirs p).run env.handle w).1 =
        (0, match openDirs p with
          | none => update openDirs p (some output)
          | some _ => openDirs) := by
  rw [adbnc_opendir, Program.run_bind, run_adbncShell]
  dsimp only
  rw [Program.run_ite]
  split
  · refine Or.inr ⟨(env.shell (.ls p) w.env).1, ?_⟩
    cases openDirs p <;> rfl
  · exact Or.inl rfl

/-- What a call does to the listing of `p`: it is put into the map where there is none, kept
where there is one, or taken away. -/
theorem step_cases (env : Env ε) (p : Str) (c : κ × DirCall ε β) (s : World ε × OpenDirs) :
    let r := DirCall.step env c s
    (c.2 = .opendir p ∧ r.1.result = 0 ∧ s.2 p = none ∧
        ∃ output, r.1.inserted = some output ∧ r.2.2 p = some output) ∨
      (c.2 = .opendir p ∧ r.1.inserted = none ∧ r.2.2 p = s.2 p ∧
        (r.1.result = 0 → s.2 p ≠ none)) ∨
      (c.2 = .releasedir p ∧ r.2.2 p = none) ∨
      c.2 ≠ .opendir p ∧ c.2 ≠ .releasedir p ∧ r.2.2 p = s.2 p := by
  obtain ⟨k, c⟩ := c
  obtain ⟨w, openDirs⟩ := s
  have hother : ∀ {q}, q ≠ p → DirCall.opendir (ε := ε) (β := β) q ≠ .opendir p := by
    intro q hq h
    cases h
    exact hq rfl
  cases c with
  | opendir q =>
    dsimp only [DirCall.step]
    rcases run_opendir env openDirs q w with h | ⟨output, h⟩
    · rw [h]
      by_cases hq : q = p
      · subst hq
        refine Or.inr (Or.inl ⟨rfl, ?_, rfl, fun h => absurd h (by change ¬ - EIO = 0; decide)⟩)
        cases hd : openDirs q with
        | none => exact hd
        | some o => rfl
      · exact Or.inr (Or.inr (Or.inr ⟨hother hq, nofun, rfl⟩))
    · rw [h]
      by_cases hq : q = p
      · subst hq
        cases hd : openDirs q with
        | none =>
          have hself := update_self q (some output) openDirs
          exact Or.inl ⟨rfl, rfl, rfl, output, hself, hself⟩
        | some o => exact Or.inr (Or.inl ⟨rfl, rfl, hd, fun _ => Option.some_ne_none o⟩)
      · refine Or.inr (Or.inr (Or.inr ⟨hother hq, nofun, ?_⟩))
        cases openDirs q with
        | none => exact update_of_ne (Ne.symm hq) (some output) openDirs
        | some o => rfl
  | readdir q b filler o => exact Or.inr (Or.inr (Or.inr ⟨nofun, nofun, rfl⟩))
  | releasedir q =>
    by_cases hq : q = p
    · subst hq
      have hself : update openDirs q none q = none := update_self q none openDirs
      exact Or.inr (Or.inr (Or.inl ⟨rfl, hself⟩))
    · refine Or.inr (Or.inr (Or.inr ⟨nofun, fun h => ?_, ?_⟩))
      · cases h
        exact hq rfl
      · exact update_of_ne (Ne.symm hq) none openDirs
  | elsewhere f => exact Or.inr (Or.inr (Or.inr ⟨nofun, nofun, rfl⟩))

/-- A listing is in the map when it was put there, or was there and is kept. -/
theorem step_listing (p : Str) (output : Output) (c : κ × DirCall ε β) (s : World ε × OpenDirs) :
    (DirCall.step env c s).2.2 p = some output ↔
      DirInserted p output (c, (DirCall.step env c s).1) ∨
        s.2 p = some output ∧ DirKept p (c, (DirCall.step env c s).1) := by
  unfold DirInserted DirKept
  rcases step_cases env p c s with ⟨hc, -, hnone, o, hins, hmap⟩ | ⟨hc, hins, hmap, -⟩ |
      ⟨hc, hmap⟩ | ⟨hopen, hrelease, hmap⟩
  · rw [hmap, hc, hins, hnone]
    simp
  · rw [hmap, hc, hins]
    simp
  · rw [hmap, hc]
    simp
  · rw [hmap]
    simp [hopen, hrelease]

/-- Some listing is in the map when the directory was opened, or one was there and is kept. -/
theorem step_open (p : Str) (c : κ × DirCall ε β) (s : World ε × OpenDirs) :
    (DirCall.step env c s).2.2 p ≠ none ↔
      DirOpened p (c, (DirCall.step env c s).1) ∨
        s.2 p ≠ none ∧ DirKept p (c, (DirCall.step env c s).1) := by
  unfold DirOpened DirKept
  rcases step_cases env p c s with ⟨hc, hres, hnone, o, -, hmap⟩ |
      ⟨hc, -, hmap, hres⟩ | ⟨hc, hmap⟩ | ⟨hopen, hrelease, hmap⟩
  · rw [hmap, hc, hres, hnone]
    simp
  · rw [hmap, hc]
    simp only [ne_eq, true_and, reduceCtorEq, not_false_eq_true, and_true]
    exact ⟨Or.inr, fun h => h.elim hres id⟩
  · rw [hmap, hc]
    simp
  · rw [hmap]
    simp [hopen, hrelease]

theorem DirInserted.none_before {p : Str} {output : Output} {c : κ × DirCall ε β}
    {s : World ε × OpenDirs} (h : DirInserted p output (c, (DirCall.step env c s).1)) :
    s.2 p = none := by
  obtain ⟨hopen, hins⟩ := h
  rcases step_cases env p c s with ⟨-, -, hnone, -⟩ | ⟨-, hins', -⟩ | ⟨hc, -⟩ | ⟨hc, -⟩
  · exact hnone
  · exact absurd (hins'.symm.trans hins) (by simp)
  · exact absurd (hc.symm.trans hopen) (by simp)
  · exact absurd hopen hc

/-! ## What a run does to `openDirs` -/

theorem final_listing (p : Str) (output : Output) (cs : List (κ × DirCall ε β))
    (s : World ε × OpenDirs) :
    (final (DirCall.step env) cs s).2 p = some output ↔
      Since (DirInserted p output) (DirKept p) (outcomes (DirCall.step env) cs s) ∨
        s.2 p = some output ∧ ∀ e ∈ outcomes (DirCall.step env) cs s, DirKept p e :=
  final_iff_since (fun s => s.2 p = some output) (fun c s => step_listing p output c s) cs s

theorem final_open (env : Env ε) (p : Str) (cs : List (κ × DirCall ε β))
    (s : World ε × OpenDirs) :
    (final (DirCall.step env) cs s).2 p ≠ none ↔
      Since (DirOpened p) (DirKept p) (outcomes (DirCall.step env) cs s) ∨
        s.2 p ≠ none ∧ ∀ e ∈ outcomes (DirCall.step env) cs s, DirKept p e :=
  final_iff_since (fun s => s.2 p ≠ none) (fun c s => step_open p c s) cs s

/-- Where a listing is, and is kept, no other one is put. -/
theorem not_inserted_of_kept {p : Str} {cs : List (κ × DirCall ε β)} {s : World ε × OpenDirs}
    (hs : s.2 p ≠ none) (hkept : ∀ e ∈ outcomes (DirCall.step env) cs s, DirKept p e)
    (output : Output) :
    ¬ Since (DirInserted p output) (DirKept p) (outcomes (DirCall.step env) cs s) := by
  rintro ⟨pre, e, post, h, hins, -⟩
  obtain ⟨cs₁, cs₂, -, rfl, ho, -⟩ := outcomes_eq_append.mp h
  have hbefore : (final (DirCall.step env) cs₁ s).2 p ≠ none :=
    (final_open env p cs₁ s).mpr (Or.inr ⟨hs, fun f hf => hkept f (by rw [h]; simp [hf])⟩)
  obtain ⟨c, o⟩ := e
  dsimp only at ho
  rw [ho] at hins
  exact hbefore hins.none_before

theorem readdir_outcome (k : κ) (p : Str) (b : β) (filler : Filler β) (o : Int)
    (s : World ε × OpenDirs) :
    (DirCall.step env (k, .readdir p b filler o) s).1 =
      ⟨if s.2 p = none then -EBADF else 0, none, s.2 p⟩ := by
  dsimp only [DirCall.step]
  rw [adbnc_readdir]
  cases s.2 p with
  | none => rfl
  | some output =>
    dsimp only
    rw [Program.run_bind]
    rfl

/-! ## What a client reads -/

/-- The listing of `p` after the calls was put into the map by one of them. -/
def DirFresh (env : Env ε) (p : Str) (cs : List (κ × DirCall ε β)) (s : World ε × OpenDirs) :
    Prop :=
  ∃ output, (final (DirCall.step env) cs s).2 p = some output ∧
    Since (DirInserted p output) (DirKept p) (outcomes (DirCall.step env) cs s)

/-- Nobody releases the directory after it was opened. -/
theorem fresh_of_kept {k : κ} {p : Str} {cs : List (κ × DirCall ε β)} {s : World ε × OpenDirs}
    (hown : (DirCall.step env ((k, .opendir p) : κ × DirCall ε β) s).1.result = 0)
    (hkept : ∀ e ∈ outcomes (DirCall.step env) ((k, .opendir p) :: cs) s, DirKept p e) :
    DirFresh env p ((k, .opendir p) :: cs) s ↔ s.2 p = none := by
  constructor
  · rintro ⟨output, -, hins⟩
    by_contra hs
    exact not_inserted_of_kept hs hkept output hins
  · intro hs
    obtain ⟨output, hins⟩ : ∃ output,
        (DirCall.step env ((k, .opendir p) : κ × DirCall ε β) s).1.inserted = some output := by
      rcases step_cases env p ((k, .opendir p) : κ × DirCall ε β) s with
        ⟨-, -, -, output, hins, -⟩ | ⟨-, -, -, h⟩ | ⟨h, -⟩ | ⟨h, -⟩
      · exact ⟨output, hins⟩
      · exact absurd hs (h hown)
      · cases h
      · exact absurd rfl h
    have hsince : Since (DirInserted p output) (DirKept p)
        (outcomes (DirCall.step env) ((k, .opendir p) :: cs) s) :=
      ⟨[], _, _, rfl, ⟨rfl, hins⟩, fun e he => hkept e (List.mem_cons_of_mem _ he)⟩
    exact ⟨output, (final_listing p output _ s).mpr (Or.inl hsince), hsince⟩

/-- Some client releases the directory after it was opened. -/
theorem fresh_of_released {k : κ} {p : Str} {cs : List (κ × DirCall ε β)}
    {s : World ε × OpenDirs}
    (hreleased : ¬ ∀ e ∈ outcomes (DirCall.step env) cs
      (DirCall.step env ((k, .opendir p) : κ × DirCall ε β) s).2, DirKept p e) :
    DirFresh env p ((k, .opendir p) :: cs) s ↔
      Since (DirOpened p) (DirKept p) (outcomes (DirCall.step env) cs
        (DirCall.step env ((k, .opendir p) : κ × DirCall ε β) s).2) := by
  have hopen := final_open env p cs
    (DirCall.step env ((k, .opendir p) : κ × DirCall ε β) s).2
  constructor
  · rintro ⟨output, hfinal, -⟩
    have hne : (final (DirCall.step env) ((k, .opendir p) :: cs) s).2 p ≠ none := by
      rw [hfinal]
      exact Option.some_ne_none output
    exact (hopen.mp hne).resolve_right fun h => hreleased h.2
  · intro hsince
    obtain ⟨output, hfinal⟩ := Option.ne_none_iff_exists'.mp (hopen.mpr (Or.inl hsince))
    have hins := ((final_listing p output cs _).mp hfinal).resolve_right fun h => hreleased h.2
    exact ⟨output, hfinal, since_append_left (H := [_]) hins⟩

/-- A client reads a listing that its own call of `adbnc_opendir` or a later call put into the
map, if and only if there was none before its own call, or some client has released the
directory since and it was opened again after that. -/
theorem readdir_fresh_iff {cs : List (κ × DirCall ε β)} {w : World ε} {k : κ} {p : Str} {b : β}
    {filler : Filler β} {iOffset : Int} {o₁ o₂ : DirOutcome}
    {H₁ H₂ H₃ : List ((κ × DirCall ε β) × DirOutcome)}
    (hrun : outcomes (DirCall.step env) cs (w, fun _ => none) =
      H₁ ++ ((k, .opendir p), o₁) :: (H₂ ++ ((k, .readdir p b filler iOffset), o₂) :: H₃))
    (hown : o₁.result = 0) :
    (o₂.result = 0 ∧ ∃ output, o₂.served = some output ∧
        Since (DirInserted p output) (DirKept p) (((k, .opendir p), o₁) :: H₂)) ↔
      ((∀ e ∈ H₂, DirKept p e) → ¬ Since (DirOpened p) (DirKept p) H₁) ∧
        (¬ (∀ e ∈ H₂, DirKept p e) → Since (DirOpened p) (DirKept p) H₂) := by
  obtain ⟨cs₁, cs₂, -, rfl, ho₁, hrest⟩ := outcomes_eq_append.mp hrun
  dsimp only at ho₁ hrest
  obtain ⟨ds, ds₂, -, rfl, ho₂, -⟩ := outcomes_eq_append.mp hrest.symm
  dsimp only at ho₂
  have hbefore : (final (DirCall.step env) cs₁ (w, fun _ => none)).2 p ≠ none ↔
      Since (DirOpened p) (DirKept p) (outcomes (DirCall.step env) cs₁ (w, fun _ => none)) := by
    rw [final_open]
    simp
  rw [← hbefore, not_not]
  generalize final (DirCall.step env) cs₁ (w, fun _ => none) = s at *
  have hfresh : (o₂.result = 0 ∧ ∃ output, o₂.served = some output ∧
      Since (DirInserted p output) (DirKept p) (((k, .opendir p), o₁) ::
        outcomes (DirCall.step env) ds
          (DirCall.step env ((k, .opendir p) : κ × DirCall ε β) s).2)) ↔
      DirFresh env p ((k, .opendir p) :: ds) s := by
    rw [ho₂, readdir_outcome, ho₁]
    refine ⟨fun h => h.2, fun h => ⟨?_, h⟩⟩
    obtain ⟨output, hserved, -⟩ := h
    dsimp only
    exact if_neg (hserved.symm ▸ Option.some_ne_none output)
  rw [hfresh]
  by_cases hkept : ∀ e ∈ outcomes (DirCall.step env) ds
      (DirCall.step env ((k, .opendir p) : κ × DirCall ε β) s).2, DirKept p e
  · rw [fresh_of_kept (ho₁ ▸ hown) (List.forall_mem_cons.mpr ⟨nofun, hkept⟩)]
    exact ⟨fun h => ⟨fun _ => h, fun h' => absurd hkept h'⟩, fun h => h.1 hkept⟩
  · rw [fresh_of_released hkept]
    exact ⟨fun h => ⟨fun h' => absurd h' hkept, fun _ => h⟩, fun h => h.2 hkept⟩

end

/-! ## Two clients -/

/-- A device with one directory, whose listing is the state of the environment. -/
def Env.oneDirectory : Env Output where
  time listing := (0, listing)
  shell
    | .ls _, listing => (listing, listing)
    | command, listing => ((Env.obliging.shell command ()).1, listing)
  spawn argv fUseStdErr listing := ((Env.obliging.spawn argv fUseStdErr ()).1, listing)
  syscall call listing := ((Env.obliging.syscall call ()).1, listing)

/-- The directory holds the file `a`. -/
def World.withA : World Output :=
  ⟨FileCache.empty, FileStatus.empty, [['.'], ['.', '.'], ['a']]⟩

/-- The file `b` comes into the directory. -/
def World.addB (w : World Output) : World Output := { w with env := w.env ++ [['b']] }

/-- A call by a client that keeps nothing. -/
abbrev ClientCall := Nat × DirCall Output Unit

/-- The second client comes when the first has released the directory. -/
def oneAfterTheOther : List ClientCall :=
  [(1, .opendir ['/', 'd']), (1, .releasedir ['/', 'd']), (0, .elsewhere World.addB)]

theorem readdir_fresh_oneAfterTheOther :
    let s := final (DirCall.step Env.oneDirectory) oneAfterTheOther (World.withA, fun _ => none)
    let open₂ : ClientCall := (2, .opendir ['/', 'd'])
    let own := DirCall.step Env.oneDirectory open₂ s
    let read := DirCall.step Env.oneDirectory (2, .readdir ['/', 'd'] () acceptAll 0) own.2
    read.1.result = 0 ∧ ∃ output, read.1.served = some output ∧
      Since (DirInserted ['/', 'd'] output) (DirKept ['/', 'd'])
        [(open₂, own.1)] := by
  intro s open₂ own read
  have hrun : outcomes (DirCall.step Env.oneDirectory) (oneAfterTheOther ++
      [(2, .opendir ['/', 'd']), (2, .readdir ['/', 'd'] () acceptAll 0)])
      (World.withA, fun _ => none) = _ := outcomes_append_append _ [] [] _ _ _
  refine (readdir_fresh_iff hrun rfl).mpr ⟨fun _ hsince => ?_, fun h => absurd nofun h⟩
  exact (final_open Env.oneDirectory ['/', 'd'] oneAfterTheOther _).mpr (Or.inl hsince) rfl

/-- The second client releases the directory while the first still reads it. -/
def overlapping : List ClientCall :=
  [(1, .opendir ['/', 'd']), (2, .opendir ['/', 'd']), (2, .releasedir ['/', 'd']),
    (1, .readdir ['/', 'd'] () acceptAll 0)]

/-- The second client comes later, and reads the listing of the first. -/
def late : List ClientCall :=
  [(1, .opendir ['/', 'd']), (0, .elsewhere World.addB), (2, .opendir ['/', 'd']),
    (2, .readdir ['/', 'd'] () acceptAll 0)]

/-- The first client has its listing taken away, and the second gets an old one. -/
theorem readdir_not_independent :
    (outcomes (DirCall.step Env.oneDirectory) overlapping (World.withA, fun _ => none)).map
        (fun e => e.2.result) = [0, 0, 0, -EBADF] ∧
      (outcomes (DirCall.step Env.oneDirectory) late (World.withA, fun _ => none)).map
        (fun e => (e.2.inserted, e.2.served)) =
          [(some [['.'], ['.', '.'], ['a']], none), (none, none), (none, none),
            (none, some [['.'], ['.', '.'], ['a']])] := by
  decide +kernel

end AdbncFs
