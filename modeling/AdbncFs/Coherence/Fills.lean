import AdbncFs.Interaction.Pool
import AdbncFs.System.Linking

/-!
# How stat outputs come into the cache

Only `doStat` and `adbnc_getattr` put a stat output into the cache, and what they put is
what the device has just answered them. Between the answer and the put other threads can do
their operations. This file has the effect of each operation on the output kept for a path
and on what the device answers, and the shape of the programs that fill the cache.
-/

namespace AdbncFs

open Text Interaction

/-- The stat command of a path was run, and wrote `output`. -/
def fetched (pcPath : Str) (output : Output) : Event Sys :=
  ⟨(.shell (.stat pcPath) : Sys.Op), output⟩

/-- A stat output was put into the cache. -/
def filled (pcPath : Str) (output : Output) : Event Sys :=
  ⟨(.cachePut .stat pcPath output : Sys.Op), ()⟩

def invalidated (pcPath : Str) : Event Sys := ⟨(.invalidate pcPath : Sys.Op), ()⟩

/-! ## The kept output -/

/-- The operation puts or removes the stat output kept for `p`. -/
def Sys.Op.SetsStat (p : Str) : Sys.Op → Prop
  | .cachePut .stat q _ => q = p
  | .invalidate q => q = p
  | _ => False

section

variable {ε : Type} {env : Env ε} {p : Str} {o : Output} {w w' : World ε}

theorem kept_handle {op : Sys.Op} (h : ¬ op.SetsStat p) (w : World ε) :
    (env.handle op w).2.fileCache.kept .stat p = w.fileCache.kept .stat p := by
  cases op with
  | cachePut k q o =>
    refine (FileCache.kept_put k .stat _ _ _ _ _).trans (if_neg ?_)
    rintro ⟨rfl, rfl⟩
    exact h rfl
  | invalidate q =>
    refine (FileCache.kept_invalidate .stat _ _ _).trans (if_neg ?_)
    rintro rfl
    exact h rfl
  | _ => rfl

theorem kept_answered {es : List (Event Sys)} (hes : ∀ e ∈ es, ¬ Sys.Op.SetsStat p e.1)
    (ha : Answered env.handle es w w') :
    w'.fileCache.kept .stat p = w.fileCache.kept .stat p :=
  answered_induct (S := Sys) (P := fun op => ¬ Sys.Op.SetsStat p op)
    (R := fun a b : World ε => b.fileCache.kept .stat p = a.fileCache.kept .stat p)
    (fun _ => rfl) (fun h₁ h₂ => h₂.trans h₁) (fun _ h w => kept_handle h w) hes ha

/-- The last fill is kept. -/
theorem kept_of_fill {pre post : List (Event Sys)} (hpost : ∀ e ∈ post, ¬ Sys.Op.SetsStat p e.1)
    (ha : Answered env.handle (pre ++ filled p o :: post) w w') :
    w'.fileCache.kept .stat p = some o := by
  obtain ⟨t, -, ha⟩ := answered_append.mp ha
  rw [kept_answered hpost ha.2]
  exact (FileCache.kept_put .stat .stat _ _ _ _ _).trans (if_pos ⟨rfl, rfl⟩)

/-- A kept output is that of the last fill, or was there at the beginning. -/
theorem fill_of_kept {es : List (Event Sys)} (ha : Answered env.handle es w w')
    (ho : w'.fileCache.kept .stat p = some o) :
    (∃ pre post, es = pre ++ filled p o :: post ∧ ∀ e ∈ post, ¬ Sys.Op.SetsStat p e.1) ∨
      (w.fileCache.kept .stat p = some o ∧ ∀ e ∈ es, ¬ Sys.Op.SetsStat p e.1) := by
  induction es generalizing w with
  | nil =>
    obtain rfl := ha
    exact Or.inr ⟨ho, by simp⟩
  | cons e es ih =>
    obtain ⟨op, r⟩ := e
    rcases ih ha.2 with ⟨pre, post, rfl, hpost⟩ | ⟨hkept, hes⟩
    · exact Or.inl ⟨_ :: pre, post, rfl, hpost⟩
    · by_cases hset : op.SetsStat p
      · -- the operation made the entry that is kept
        cases op with
        | cachePut k q o' =>
          cases k with
          | stat =>
            obtain rfl : q = p := hset
            have := (FileCache.kept_put .stat .stat _ _ _ _ _).symm.trans hkept
            rw [if_pos ⟨rfl, rfl⟩, Option.some.injEq] at this
            subst this
            exact Or.inl ⟨[], es, rfl, hes⟩
          | readLink => exact hset.elim
        | invalidate q =>
          obtain rfl : q = p := hset
          have := (FileCache.kept_invalidate .stat _ _ _).symm.trans hkept
          rw [if_pos rfl] at this
          cases this
        | _ => exact hset.elim
      · rw [kept_handle hset] at hkept
        exact Or.inr ⟨hkept, List.forall_mem_cons.mpr ⟨hset, hes⟩⟩

end

/-! ## What the device answers -/

/-- The commands that change the tree of the device. -/
def Command.Changes : Command → Prop
  | mkdir _ | rmdir _ | mv _ _ | rm _ | touch _ => True
  | _ => False

/-- The operations that can change the device. -/
def Sys.Op.ChangesDevice : Sys.Op → Prop
  | .shell command => command.Changes
  | .spawn _ _ => True
  | _ => False

/-- A device that changes only through the operations that are meant to change it. -/
structure DeviceView {ε : Type} (env : Env ε) where
  /-- what the stat command writes for a path -/
  reply : ε → Str → Output
  stat_reply : ∀ p e, (env.shell (.stat p) e).1 = reply e p
  time_reply : ∀ e, reply (env.time e).2 = reply e
  shell_reply : ∀ c e, ¬ c.Changes → reply (env.shell c e).2 = reply e
  syscall_reply : ∀ c e, reply (env.syscall c e).2 = reply e

namespace DeviceView

variable {ε : Type} {env : Env ε} (v : DeviceView env) {p : Str} {w w' : World ε}

theorem reply_handle {op : Sys.Op} (h : ¬ op.ChangesDevice) (w : World ε) :
    v.reply (env.handle op w).2.env = v.reply w.env := by
  cases op with
  | cacheGet k q => exact v.time_reply _
  | cachePut k q o => exact v.time_reply _
  | shell c => exact v.shell_reply _ _ h
  | spawn argv fUseStdErr => exact absurd trivial h
  | syscall c => exact v.syscall_reply _ _
  | _ => rfl

theorem reply_answered {es : List (Event Sys)} (hes : ∀ e ∈ es, ¬ Sys.Op.ChangesDevice e.1)
    (ha : Answered env.handle es w w') : v.reply w'.env = v.reply w.env :=
  answered_induct (S := Sys) (P := fun op => ¬ Sys.Op.ChangesDevice op)
    (R := fun a b : World ε => v.reply b.env = v.reply a.env)
    (fun _ => rfl) (fun h₁ h₂ => h₂.trans h₁) (fun _ h w => v.reply_handle h w) hes ha

/-- What `adbnc_getattr` returns: it goes by a valid output of the cache, or by the
device. -/
theorem getattr_run (p : Str) (w : World ε) :
    ((adbnc_getattr p).run env.handle w).1 =
      attributes ((w.fileCache.getStat p (env.time w.env).1).getD (v.reply w.env p)) := by
  rw [adbnc_getattr, Program.run_bind, Program.run_pure, run_statOutput]
  cases w.fileCache.getStat p (env.time w.env).1 with
  | some o => rfl
  | none =>
    dsimp only
    rw [v.stat_reply, v.time_reply]
    rfl

end DeviceView

/-! ## Fresh fills -/

/-- Every fill of the path comes right after the stat command whose output it puts. -/
def FillsFresh (es : List (Event Sys)) : Prop :=
  ∀ pre p o post, es = pre ++ filled p o :: post → ∃ pre', pre = pre' ++ [fetched p o]

/-- The operations other than a fill. -/
def Sys.Op.NoFill : Sys.Op → Prop
  | .cachePut .stat _ _ => False
  | _ => True

theorem FillsFresh.append {es ds : List (Event Sys)} (hes : FillsFresh es) (hds : FillsFresh ds) :
    FillsFresh (es ++ ds) := by
  intro pre p o post h
  rcases append_eq_append_cons h with ⟨post', hpost⟩ | ⟨pre', rfl, hpre⟩
  · exact hes _ _ _ _ hpost
  · obtain ⟨pre, rfl⟩ := hds _ _ _ _ hpre
    exact ⟨es ++ pre, (List.append_assoc _ _ _).symm⟩

theorem fillsFresh_of_noFill {es : List (Event Sys)} (h : ∀ e ∈ es, Sys.Op.NoFill e.1) :
    FillsFresh es := by
  rintro pre p o post rfl
  exact (h (filled p o) (by simp)).elim

theorem statOutput_fresh (p : Str) : (statOutput p).EachPath FillsFresh := by
  intro es o hpath
  obtain ⟨r, es₂, h₂, rfl⟩ := Program.path_send_bind.mp hpath
  have hfirst : FillsFresh [(⟨Sys.Op.cacheGet .stat p, r⟩ : Event Sys)] :=
    fillsFresh_of_noFill (by simp [Sys.Op.NoFill])
  refine hfirst.append ?_
  cases r with
  | some x =>
    obtain ⟨rfl, -⟩ := Program.path_pure.mp h₂
    exact fillsFresh_of_noFill (by simp)
  | none =>
    obtain ⟨x, ds₂, h₄, rfl⟩ := Program.path_send_bind.mp h₂
    obtain ⟨u, cs₂, h₆, rfl⟩ := Program.path_send_bind.mp h₄
    obtain ⟨rfl, -⟩ := Program.path_pure.mp h₆
    intro pre q y post h
    rcases pre with _ | ⟨a, _ | ⟨b, pre⟩⟩
    · cases h
    · cases h
      exact ⟨[], rfl⟩
    · cases pre <;> cases h

end AdbncFs
