import Mathlib.Data.Fintype.Option
import AdbncFs.Coherence.Existence
import AdbncFs.Coherence.Mutators

/-!
# Changes racing with `adbnc_getattr`

One callback that changes the path `p` runs among any number of `adbnc_getattr` of `p`, one
operation of one of them at a time. `getattr_changed_iff` says when a later `adbnc_getattr`
still returns the attributes from before the change: when the last fill that is not followed
by an invalidation had asked the device before the change (`LateFill`), and the cache entry
has not expired. Neither order of the invalidation and the device command in the callback
excludes this.
-/

namespace AdbncFs

open Text Interaction

variable {ι : Type} [DecidableEq ι]

/-- The callback and the `adbnc_getattr` that run with it. -/
def Mutator.race (m : Mutator) (g : Globals) (p : Str) : Option ι → Program Sys Int
  | none => link g ((m.callback p).program g)
  | some _ => link g ((Callback.getattr p).program g)

/-- The last fill of `p`, not followed by an invalidation of `p`, puts an output from before
a change of the device. -/
def LateFill (p : Str) (τ : Trace Sys ι) : Prop :=
  ∃ pre i o mid post, τ = pre ++ (i, fetched p o) :: (mid ++ (i, filled p o) :: post) ∧
    (∀ x ∈ post, ¬ Sys.Op.SetsStat p x.2.1) ∧ ∃ x ∈ mid ++ post, Sys.Op.ChangesDevice x.2.1

/-! ## The trace of a race -/

/-- What is used of the programs that race. -/
structure RaceTrace (p : Str) (τ : Trace Sys (Option ι)) : Prop where
  fresh : ∀ i, FillsFresh (proj i τ)
  changed_by : ∀ x ∈ τ, Sys.Op.ChangesDevice x.2.1 → x.1 = none
  once : ChangesOnce (proj none τ)
  announces : Announces p (proj none τ)

section

variable {ε : Type} {env : Env ε} {g : Globals} {p : Str} {w w' : World ε}
  {τ : Trace Sys (Option ι)}

theorem keepsStatus_getattr (g : Globals) (p : Str) :
    (link g ((Callback.getattr p).program g)).Uses (S := Sys) Sys.Op.KeepsStatus := by
  simp only [Callback.program, link_bind, link_liftM, link_pure]
  refine Program.uses_bind (Program.uses_bind ?_ fun _ => Program.uses_pure _)
    fun _ => Program.uses_pure _
  exact uses_statOutput (fun _ => trivial) (fun _ _ => trivial) trivial

/-- Between two readings of `fileStatus` in a row nobody changes it. -/
theorem not_rereads (ha : Answered env.handle (τ.map Prod.snd) w w')
    (hkeep : ∀ x ∈ τ, x.1 ≠ none → Sys.Op.KeepsStatus x.2.1) : ¬ Rereads (proj none τ) := by
  rintro ⟨as, s, s', bs, h, hne⟩
  obtain ⟨pre, post, rfl, -, h⟩ := proj_eq_append_cons h
  rw [← List.nil_append (_ :: bs)] at h
  obtain ⟨mid, post, rfl, hmid, -⟩ := proj_eq_append_cons h
  simp only [List.map_append, List.map_cons] at ha
  obtain ⟨w₁, -, hs, ha⟩ := answered_append.mp ha
  obtain ⟨w₂, ha, hs', -⟩ := answered_append.mp ha
  have hstatus : w₂.fileStatus = w₁.fileStatus := by
    refine answered_induct (S := Sys) (P := Sys.Op.KeepsStatus)
      (R := fun a b : World ε => b.fileStatus = a.fileStatus) (fun _ => rfl)
      (fun h₁ h₂ => h₂.trans h₁) (fun _ h w => handle_keepsStatus env h w) ?_ ha
    intro e he
    obtain ⟨⟨i, e⟩, hx, rfl⟩ := List.mem_map.mp he
    refine hkeep (i, e) (by simp [hx]) fun hi => ?_
    rw [show i = none from hi] at hx
    rw [← mem_proj, hmid] at hx
    cases hx
  exact hne ((hs.trans hstatus.symm).trans hs'.symm)

theorem exec_raceTrace {m : Mutator} {is : List (Option ι)} {c : Pool Sys (Option ι) Int (World ε)}
    (hr : Pool.exec env.handle is ⟨m.race g p, w⟩ = (τ, c)) (hdone : c.Done) :
    RaceTrace p τ ∧ Answered env.handle (τ.map Prod.snd) w c.shared := by
  have ha := Pool.exec_answered env.handle is ⟨m.race g p, w⟩
  rw [hr] at ha
  have hpath : ∀ i, ∃ a, (m.race g p i).Path (proj i τ) a := by
    intro i
    obtain ⟨a, hret⟩ := hdone.exists_ret i
    have hret' : (Pool.exec env.handle is ⟨m.race g p, w⟩).2.threads i = .ret a := by
      rw [hr]
      exact hret
    have hpath := Pool.exec_path hret'
    rw [hr] at hpath
    exact ⟨a, hpath⟩
  have hgetattr : ∀ i, Asking (proj (some i) τ) := by
    intro i
    obtain ⟨a, h⟩ := hpath (some i)
    exact getattr_asking p g _ _ h
  obtain ⟨a, hnone⟩ := hpath none
  have hchanging : Changing (proj none τ) := m.changing g p _ _ hnone
  refine ⟨⟨?_, ?_, hchanging.2, ?_⟩, ha⟩
  · intro i
    cases i with
    | none => exact hchanging.1
    | some i => exact (hgetattr i).1
  · rintro ⟨i, e⟩ hx hc
    cases i with
    | none => rfl
    | some i => exact absurd hc ((hgetattr i).2 e (mem_proj.mpr hx))
  · refine (m.announces g p hnone).resolve_right (not_rereads ha ?_)
    rintro ⟨i, e⟩ hx hi
    cases i with
    | none => exact absurd rfl hi
    | some i =>
      obtain ⟨b, h⟩ := hpath (some i)
      exact h.of_uses (keepsStatus_getattr g p) e (mem_proj.mpr hx)

namespace RaceTrace

/-- A fill comes after the stat command of the same thread. -/
theorem fetch_of_fill (h : RaceTrace p τ) {pre post : Trace Sys (Option ι)} {i : Option ι}
    {q : Str} {o : Output} (hτ : τ = pre ++ (i, filled q o) :: post) :
    ∃ pre' mid, pre = pre' ++ (i, fetched q o) :: mid := by
  have hproj : proj i τ = proj i pre ++ filled q o :: proj i post := by
    rw [hτ, proj_append, proj_cons_self]
  obtain ⟨es, hes⟩ := h.fresh i _ _ _ _ hproj
  obtain ⟨pre', mid, rfl, -, -⟩ := proj_eq_append_cons hes
  exact ⟨pre', mid, rfl⟩

/-- Before the first change. -/
theorem unchanged_before (h : RaceTrace p τ) {pre post : Trace Sys (Option ι)}
    (hτ : τ = pre ++ post) (hpost : ∃ x ∈ post, Sys.Op.ChangesDevice x.2.1) :
    ∀ x ∈ pre, ¬ Sys.Op.ChangesDevice x.2.1 := by
  rintro ⟨i, a⟩ ha hca
  obtain ⟨⟨j, b⟩, hb, hcb⟩ := hpost
  obtain rfl : i = none := h.changed_by _ (by simp [hτ, ha]) hca
  obtain rfl : j = none := h.changed_by _ (by simp [hτ, hb]) hcb
  have honce := h.once
  rw [hτ, proj_append] at honce
  exact (List.pairwise_append.mp honce).2.2 a (mem_proj.mpr ha) b (mem_proj.mpr hb) ⟨hca, hcb⟩

variable (v : DeviceView env)

/-- A late fill leaves an output from before the change. -/
theorem kept_of_lateFill (h : RaceTrace p τ) (ha : Answered env.handle (τ.map Prod.snd) w w')
    (hlate : LateFill p τ) : w'.fileCache.kept .stat p = some (v.reply w.env p) := by
  obtain ⟨pre, i, o, mid, post, rfl, hpost, hchange⟩ := hlate
  have hpre := h.unchanged_before rfl (by
    obtain ⟨x, hx, hc⟩ := hchange
    exact ⟨x, by simp only [List.mem_append, List.mem_cons] at hx ⊢; tauto, hc⟩)
  simp only [List.map_append, List.map_cons] at ha
  obtain ⟨w₁, hbefore, ho, ha⟩ := answered_append.mp ha
  have hreply : v.reply w₁.env = v.reply w.env :=
    v.reply_answered (List.forall_mem_map.mpr hpre) hbefore
  rw [← hreply, ← v.stat_reply]
  have ho' : (env.shell (.stat p) w₁.env).1 = o := ho.symm
  rw [ho']
  exact kept_of_fill (List.forall_mem_map.mpr hpost) ha

/-- A kept output other than the device's is from a late fill. -/
theorem lateFill_of_kept (h : RaceTrace p τ) (ha : Answered env.handle (τ.map Prod.snd) w w')
    {o : Output} (hkept : w'.fileCache.kept .stat p = some o) (ho : o ≠ v.reply w'.env p)
    (hchange : v.reply w'.env ≠ v.reply w.env) : LateFill p τ := by
  rcases fill_of_kept ha hkept with ⟨pre, post, hτ, hpost⟩ | ⟨-, hnone⟩
  · obtain ⟨pre, rest, rfl, rfl, hrest⟩ := List.map_eq_append_iff.mp hτ
    obtain ⟨⟨i, e⟩, post, rfl, he, rfl⟩ := List.map_eq_cons_iff.mp hrest
    obtain rfl : e = filled p o := he
    obtain ⟨pre, mid, rfl⟩ := h.fetch_of_fill rfl
    refine ⟨pre, i, o, mid, post, by simp,
      fun x hx => hpost x.2 (List.mem_map_of_mem hx), ?_⟩
    -- otherwise the device still answers as it did at the stat command
    by_contra hquiet
    simp only [List.append_assoc, List.cons_append, List.map_append, List.map_cons] at ha
    obtain ⟨w₁, -, ho₁, ha⟩ := answered_append.mp ha
    have hstat : v.reply (env.shell (.stat p) w₁.env).2 = v.reply w₁.env :=
      v.shell_reply (.stat p) _ not_false
    have hreply := v.reply_answered (fun e he hc => ?_) ha
    · refine ho ?_
      rw [hreply]
      refine Eq.trans ?_ (congrFun hstat p).symm
      exact ho₁.trans (v.stat_reply p w₁.env)
    · rcases List.mem_append.mp he with he | he
      · obtain ⟨x, hx, rfl⟩ := List.mem_map.mp he
        exact hquiet ⟨x, List.mem_append_left _ hx, hc⟩
      · rcases List.mem_cons.mp he with rfl | he
        · exact hc
        · obtain ⟨x, hx, rfl⟩ := List.mem_map.mp he
          exact hquiet ⟨x, List.mem_append_right _ hx, hc⟩
  · exfalso
    rcases h.announces with hquiet | hinv
    · refine hchange (v.reply_answered (fun e he hc => ?_) ha)
      obtain ⟨⟨i, e⟩, hx, rfl⟩ := List.mem_map.mp he
      obtain rfl : i = none := h.changed_by _ hx hc
      exact hquiet e (mem_proj.mpr hx) hc
    · exact hnone (invalidated p) (List.mem_map.mpr ⟨_, mem_proj.mp hinv, rfl⟩) rfl

end RaceTrace

/-! ## The later call -/

/-- When the callback has changed the attributes of `p`, a later `adbnc_getattr` returns those
from before if and only if the last fill was late and its entry is still valid. -/
theorem getattr_changed_iff (v : DeviceView env) {m : Mutator} {is : List (Option ι)}
    {c : Pool Sys (Option ι) Int (World ε)}
    (hr : Pool.exec env.handle is ⟨m.race g p, w⟩ = (τ, c)) (hdone : c.Done) {e : ε}
    (he : v.reply e p = v.reply c.shared.env p)
    (hchanged : attributes (v.reply c.shared.env p) ≠ attributes (v.reply w.env p)) :
    ((adbnc_getattr p).run env.handle { c.shared with env := e }).1 ≠ attributes (v.reply w.env p) ↔
      ¬ (LateFill p τ ∧ (c.shared.fileCache.getStat p (env.time e).1).isSome) := by
  obtain ⟨h, ha⟩ := exec_raceTrace hr hdone
  rw [v.getattr_run]
  dsimp only
  rw [he]
  constructor
  · rintro hne ⟨hlate, hvalid⟩
    obtain ⟨o, ho⟩ := Option.isSome_iff_exists.mp hvalid
    have hkept := (FileCache.kept_of_get ho).symm.trans (h.kept_of_lateFill v ha hlate)
    rw [ho, Option.some.inj hkept] at hne
    exact hne rfl
  · intro hno heq
    cases ho : c.shared.fileCache.getStat p (env.time e).1 with
    | none =>
      rw [ho] at heq
      exact hchanged heq
    | some o =>
      rw [ho] at heq
      refine hno ⟨h.lateFill_of_kept v ha (FileCache.kept_of_get ho) ?_ ?_, by rw [ho]; rfl⟩
      · rintro rfl
        exact hchanged heq
      · intro hreply
        exact hchanged (by rw [hreply])

end

/-! ## A directory made while its attributes are asked for -/

theorem TreeDevice.shell_tree (d : TreeDevice) {c : Command} (h : ¬ c.Changes) (s : TreeState) :
    (d.env.shell c s).2.tree = s.tree := by
  cases c with
  | stat p => rfl
  | readlink p | ls p | dfBlocks p | dfInodes p | sync => exact ite_self s.tree
  | mkdir p | rmdir p | mv p q | rm p | touch p => exact absurd trivial h

/-- What a device that is a tree answers. -/
def TreeDevice.view (d : TreeDevice) : DeviceView d.env where
  reply s p := ((DevPath.ofStr p).map (d.reply s.tree)).getD []
  stat_reply _ _ := rfl
  time_reply _ := rfl
  shell_reply c s h := by rw [d.shell_tree h]
  syscall_reply _ _ := rfl

/-- An empty tree. -/
def emptyStart : World TreeState := ⟨FileCache.empty, FileStatus.empty, [], 0⟩

/-- `adbnc_mkdir` of `/d` and one `adbnc_getattr` of it, in the order given. -/
def mkdirRace (is : List (Option Unit)) :
    Trace Sys (Option Unit) × Pool Sys (Option Unit) Int (World TreeState) :=
  Pool.exec exampleDevice.env.handle is ⟨Mutator.mkdir.race exampleGlobals "/d".toList, emptyStart⟩

/-- What `adbnc_getattr` returns afterwards. -/
def mkdirRace.later (is : List (Option Unit)) : Int × Stat :=
  ((adbnc_getattr "/d".toList).run exampleDevice.env.handle (mkdirRace is).2.shared).1

/-- What it has to return when the device answers as in `s`. -/
def mkdirRace.attributes (s : TreeState) : Int × Stat :=
  AdbncFs.attributes (exampleDevice.view.reply s "/d".toList)

/-- First one and then the other. -/
def inTurn : List (Option Unit) := [none, none, some (), some (), some ()]

theorem mkdirRace_inTurn :
    mkdirRace.later inTurn ≠ mkdirRace.attributes emptyStart.env ↔
      ¬ (LateFill "/d".toList (mkdirRace inTurn).1 ∧
        ((mkdirRace inTurn).2.shared.fileCache.getStat "/d".toList 0).isSome) :=
  getattr_changed_iff exampleDevice.view (m := .mkdir) (g := exampleGlobals) (p := "/d".toList)
    (w := emptyStart) (c := (mkdirRace inTurn).2) (e := (mkdirRace inTurn).2.shared.env)
    (rfl : mkdirRace inTurn = _) (by decide +kernel) rfl (by decide +kernel)

/-- The getattr runs between the invalidation and the command of the mkdir: the directory is
there, and a later getattr does not find it. -/
theorem mkdirRace_stale :
    ¬ ∀ is, (mkdirRace is).2.Done →
      mkdirRace.attributes (mkdirRace is).2.shared.env ≠ mkdirRace.attributes emptyStart.env →
        mkdirRace.later is ≠ mkdirRace.attributes emptyStart.env := by
  intro h
  have := h [none, some (), some (), some (), none]
  revert this
  decide +kernel

end AdbncFs
