import Mathlib.Logic.Relation
import Mathlib.Order.BooleanAlgebra.Set
import Mathlib.Order.RelClasses
import AdbncFs.Interaction.Pool

/-!
# Threads with mutexes and condition variables

The operations of a thread are those of a signature `S` together with locking and unlocking
mutexes of `M` and waiting on condition variables of `C`, each of which comes with a flag.
The threads share the mutexes, the flags and a state on which a handler answers the
operations of `S`. A waiting thread may wake up without a signal.

The mutexes are ordered. A program is `Orderly` when it locks only mutexes above all that it
holds, unlocks what it holds, raises a flag only under the mutex of its condition variable,
and takes it back before it unlocks that one. Threads of orderly programs never come to a
deadlock (`OrderlyThreads.exists_not_blocked`), and none of them ever waits on a condition
variable (`OrderlyThreads.running`): whoever finds the mutex of the variable free finds its
flag down (`OrderlyThreads.flag_of_free`).
-/

namespace Interaction

/-! ## Programs with mutexes -/

inductive Sync.Op (M C : Type) (S : Sig)
  | lock (m : M)
  | unlock (m : M)
  /-- As long as the flag of `x` is up, wait on `x` with the mutex `m`. -/
  | await (x : C) (m : M)
  | signal (x : C)
  | setFlag (x : C) (b : Bool)
  | act (op : S.Op)

def Sync.Op.Res {M C : Type} {S : Sig} : Sync.Op M C S → Type
  | .act op => S.Res op
  | _ => Unit

/-- The signature `S` with mutexes and condition variables. -/
def Sync (M C : Type) (S : Sig) : Sig := ⟨Sync.Op M C S, Sync.Op.Res⟩

section

variable {M C : Type} {S T : Sig} {α β : Type}

def lock (m : M) : Program (Sync M C S) Unit := .send (S := Sync M C S) (.lock m)

def unlock (m : M) : Program (Sync M C S) Unit := .send (S := Sync M C S) (.unlock m)

def await (x : C) (m : M) : Program (Sync M C S) Unit := .send (S := Sync M C S) (.await x m)

def signal (x : C) : Program (Sync M C S) Unit := .send (S := Sync M C S) (.signal x)

def setFlag (x : C) (b : Bool) : Program (Sync M C S) Unit :=
  .send (S := Sync M C S) (.setFlag x b)

def act (op : S.Op) : Program (Sync M C S) (S.Res op) := .send (S := Sync M C S) (.act op)

/-- The program between the locking and the unlocking of a mutex. -/
def exclusive (m : M) (p : Program (Sync M C S) α) : Program (Sync M C S) α := do
  lock m
  let a ← p
  unlock m
  return a

/-- What is left of an operation for a thread that is alone. -/
def aloneOp : (op : Sync.Op M C S) → Program S op.Res
  | .act op => .send op
  | .lock _ | .unlock _ | .await _ _ | .signal _ | .setFlag _ _ => pure ()

/-- The program without mutexes and condition variables. -/
def alone (p : Program (Sync M C S) α) : Program S α := p.expand aloneOp

@[simp] theorem alone_pure (a : α) : alone (pure a : Program (Sync M C S) α) = pure a := rfl

@[simp] theorem alone_bind (p : Program (Sync M C S) α) (f : α → Program (Sync M C S) β) :
    alone (p >>= f) = alone p >>= fun a => alone (f a) := Program.expand_bind _ _ _

@[simp] theorem alone_lock (m : M) : alone (lock m : Program (Sync M C S) Unit) = pure () := rfl

@[simp] theorem alone_unlock (m : M) : alone (unlock m : Program (Sync M C S) Unit) = pure () :=
  rfl

@[simp] theorem alone_await (x : C) (m : M) :
    alone (await x m : Program (Sync M C S) Unit) = pure () := rfl

@[simp] theorem alone_signal (x : C) : alone (signal x : Program (Sync M C S) Unit) = pure () :=
  rfl

@[simp] theorem alone_setFlag (x : C) (b : Bool) :
    alone (setFlag x b : Program (Sync M C S) Unit) = pure () := rfl

@[simp] theorem alone_act (op : S.Op) :
    alone (act op : Program (Sync M C S) (S.Res op)) = .send op := rfl

@[simp] theorem alone_ite (c : Prop) [Decidable c] (p q : Program (Sync M C S) α) :
    alone (if c then p else q) = if c then alone p else alone q := by
  split <;> rfl

@[simp] theorem alone_exclusive (m : M) (p : Program (Sync M C S) α) :
    alone (exclusive m p) = alone p := by
  simp only [exclusive, alone_bind, alone_lock, alone_unlock, alone_pure, pure_bind, bind_pure]

/-- Where every operation alone is the operation that it stands for, so is every program. -/
theorem alone_expand {f : (op : T.Op) → Program (Sync M C S) (T.Res op)}
    {g : (op : T.Op) → Program S (T.Res op)} (h : ∀ op, alone (f op) = g op)
    (p : Program T α) : alone (p.expand f) = p.expand g := by
  induction p with
  | ret a => rfl
  | call op k ih =>
    change alone (f op >>= fun r => (k r).expand f) = (g op).bind fun r => (k r).expand g
    rw [alone_bind, h, funext ih]
    rfl

end

/-! ## The order of the mutexes -/

/-- What a thread holds: the mutexes it has locked, and the condition variables whose flags it
has raised. -/
structure Holding (M C : Type) where
  mutexes : Set M
  raised : Set C

/-- Holding the mutexes of `ms`, with no flag raised. -/
def Holding.only {M C : Type} (ms : Set M) : Holding M C := ⟨ms, ∅⟩

section

variable {M C : Type} {S T : Sig} {α β : Type}

namespace Sync.Op

/-- What a thread holds after an operation. -/
def after (s : Holding M C) : Sync.Op M C S → Holding M C
  | .lock m => { s with mutexes := insert m s.mutexes }
  | .unlock m => { s with mutexes := s.mutexes \ {m} }
  | .setFlag x true => { s with raised := insert x s.raised }
  | .setFlag x false => { s with raised := s.raised \ {x} }
  | .await _ _ | .signal _ | .act _ => s

variable [LT M]

/-- The operation keeps the order of the mutexes, where `guard` tells the mutex of a
condition variable. -/
def Allowed (guard : C → M) (s : Holding M C) : Sync.Op M C S → Prop
  | .lock m => ∀ n ∈ s.mutexes, n < m
  | .unlock m => m ∈ s.mutexes ∧ ∀ x ∈ s.raised, guard x ≠ m
  | .await x m => m = guard x ∧ m ∈ s.mutexes ∧ x ∉ s.raised
  | .setFlag x _ => guard x ∈ s.mutexes
  | .signal _ | .act _ => True

end Sync.Op

/-- A thread that holds `s` can run the program; it then holds `t`. -/
def Orderly [LT M] (guard : C → M) : Holding M C → Program (Sync M C S) α → Holding M C → Prop
  | s, .ret _, t => s = t
  | s, .call op k, t =>
    Sync.Op.Allowed guard s op ∧ ∀ r, Orderly guard (Sync.Op.after s op) (k r) t

section

variable [LT M] {guard : C → M} {s t u : Holding M C}

theorem orderly_pure (a : α) : Orderly guard s (pure a : Program (Sync M C S) α) s := rfl

theorem orderly_send (op : Sync.Op M C S) (h : op.Allowed guard s) :
    Orderly guard s (Program.send (S := Sync M C S) op) (op.after s) := ⟨h, fun _ => rfl⟩

theorem orderly_act (op : S.Op) :
    Orderly guard s (act op : Program (Sync M C S) (S.Res op)) s :=
  orderly_send (.act op) trivial

theorem orderly_signal (x : C) : Orderly guard s (signal x : Program (Sync M C S) Unit) s :=
  orderly_send (.signal x) trivial

theorem orderly_await {x : C} (hm : guard x ∈ s.mutexes) (hx : x ∉ s.raised) :
    Orderly guard s (await x (guard x) : Program (Sync M C S) Unit) s :=
  orderly_send (.await x (guard x)) ⟨rfl, hm, hx⟩

theorem orderly_raise {x : C} (hm : guard x ∈ s.mutexes) :
    Orderly guard s (setFlag x true : Program (Sync M C S) Unit)
      { s with raised := insert x s.raised } :=
  orderly_send (.setFlag x true) hm

theorem orderly_lower {x : C} (hm : guard x ∈ s.mutexes) :
    Orderly guard s (setFlag x false : Program (Sync M C S) Unit)
      { s with raised := s.raised \ {x} } :=
  orderly_send (.setFlag x false) hm

theorem orderly_bind {p : Program (Sync M C S) α} {f : α → Program (Sync M C S) β}
    (hp : Orderly guard s p t) (hf : ∀ a, Orderly guard t (f a) u) :
    Orderly guard s (p >>= f) u := by
  change Orderly guard s (p.bind f) u
  induction p generalizing s with
  | ret a =>
    obtain rfl := hp
    exact hf a
  | call op k ih => exact ⟨hp.1, fun r => ih r (hp.2 r)⟩

theorem orderly_expand {f : (op : T.Op) → Program (Sync M C S) (T.Res op)}
    (h : ∀ op, Orderly guard s (f op) s) (p : Program T α) :
    Orderly guard s (p.expand f) s := by
  induction p with
  | ret a => rfl
  | call op k ih => exact orderly_bind (h op) ih

end

theorem orderly_exclusive [Preorder M] {guard : C → M} {ms : Set M} {m : M}
    {p : Program (Sync M C S) α} (hm : ∀ n ∈ ms, n < m)
    (hp : Orderly guard (.only (insert m ms)) p (.only (insert m ms))) :
    Orderly guard (.only ms) (exclusive m p) (.only ms) := by
  have hfree : m ∉ ms := fun h => lt_irrefl m (hm m h)
  have hout : (Holding.only ms : Holding M C) =
      Sync.Op.after (S := S) (.only (insert m ms)) (.unlock m) := by
    rw [Holding.only, Sync.Op.after, Holding.only]
    dsimp only
    rw [Set.insert_sdiff_self_of_notMem hfree]
  have hunlock : Sync.Op.Allowed (S := S) guard (.only (insert m ms)) (.unlock m) :=
    ⟨Set.mem_insert m ms, fun x hx => absurd hx (Set.notMem_empty x)⟩
  refine orderly_bind (orderly_send (.lock m) hm) fun _ => orderly_bind hp fun a => ?_
  refine orderly_bind (orderly_send _ hunlock) fun _ => ?_
  exact hout.symm

end

/-! ## Threads -/

/-- Where a thread is that has come to an `await`. -/
inductive Mode
  | running
  /-- It has found the flag up and is about to wait. -/
  | waiting
  | sleeping
  /-- It has been woken up and has not got the mutex back. -/
  | woken
  deriving DecidableEq

/-- Threads, each with the rest of its program, and what they share. -/
structure Threads (M C : Type) (S : Sig) (ι α σ : Type) where
  program : ι → Program (Sync M C S) α
  mode : ι → Mode
  owner : M → Option ι
  flag : C → Bool
  shared : σ

namespace Threads

variable {M C : Type} {S : Sig} {ι α σ : Type}

/-- No mutex is locked and no flag is up. -/
def start (program : ι → Program (Sync M C S) α) (shared : σ) : Threads M C S ι α σ where
  program := program
  mode _ := .running
  owner _ := none
  flag _ := false
  shared := shared

/-- Thread `i` comes to the operation `op`, and goes on with `k`. -/
def At (c : Threads M C S ι α σ) (i : ι) (op : Sync.Op M C S)
    (k : op.Res → Program (Sync M C S) α) : Prop :=
  c.program i = .call (S := Sync M C S) op k

def Unfinished (c : Threads M C S ι α σ) (i : ι) : Prop := ∃ op k, c.At i op k

/-- Thread `i` cannot go on by itself: it sleeps, or the mutex that it needs is locked. -/
inductive Blocked (c : Threads M C S ι α σ) (i : ι) : Prop
  | lock {m : M} {k} (hat : c.At i (.lock m) k) (hmode : c.mode i = .running)
      (howner : c.owner m ≠ none)
  | sleeping {x : C} {m : M} {k} (hat : c.At i (.await x m) k) (hmode : c.mode i = .sleeping)
  | woken {x : C} {m : M} {k} (hat : c.At i (.await x m) k) (hmode : c.mode i = .woken)
      (howner : c.owner m ≠ none)

variable [DecidableEq ι] [DecidableEq M] [DecidableEq C]

open Function in
/-- A step of thread `i`. -/
inductive Step (h : Handler S σ) (i : ι) :
    Threads M C S ι α σ → Threads M C S ι α σ → Prop
  | lock {c : Threads M C S ι α σ} {m k} : c.At i (.lock m) k → c.mode i = .running →
      c.owner m = none →
      Step h i c { c with
        program := update c.program i (k ()), owner := update c.owner m (some i) }
  | unlock {c : Threads M C S ι α σ} {m k} : c.At i (.unlock m) k → c.mode i = .running →
      Step h i c { c with program := update c.program i (k ()), owner := update c.owner m none }
  | setFlag {c : Threads M C S ι α σ} {x b k} : c.At i (.setFlag x b) k → c.mode i = .running →
      Step h i c { c with program := update c.program i (k ()), flag := update c.flag x b }
  | act {c : Threads M C S ι α σ} {op k} : c.At i (.act op) k → c.mode i = .running →
      Step h i c { c with
        program := update c.program i (k (h op c.shared).1), shared := (h op c.shared).2 }
  /-- The flag is down. -/
  | pass {c : Threads M C S ι α σ} {x m k} : c.At i (.await x m) k → c.mode i = .running →
      c.flag x = false → Step h i c { c with program := update c.program i (k ()) }
  /-- The flag is up. -/
  | wait {c : Threads M C S ι α σ} {x m k} : c.At i (.await x m) k → c.mode i = .running →
      c.flag x = true → Step h i c { c with mode := update c.mode i .waiting }
  | sleep {c : Threads M C S ι α σ} {x m k} : c.At i (.await x m) k → c.mode i = .waiting →
      Step h i c { c with mode := update c.mode i .sleeping, owner := update c.owner m none }
  /-- Waking up without a signal. -/
  | wake {c : Threads M C S ι α σ} {x m k} : c.At i (.await x m) k → c.mode i = .sleeping →
      Step h i c { c with mode := update c.mode i .woken }
  /-- The mutex is locked again, and the flag is read again. -/
  | relock {c : Threads M C S ι α σ} {x m k} : c.At i (.await x m) k → c.mode i = .woken →
      c.owner m = none →
      Step h i c { c with mode := update c.mode i .running, owner := update c.owner m (some i) }
  | signal {c : Threads M C S ι α σ} {x k j m l} : c.At i (.signal x) k → c.mode i = .running →
      c.At j (.await x m) l → c.mode j = .sleeping →
      Step h i c { c with program := update c.program i (k ()), mode := update c.mode j .woken }
  /-- Nobody sleeps: the signal is lost. -/
  | signalLost {c : Threads M C S ι α σ} {x k} : c.At i (.signal x) k → c.mode i = .running →
      (∀ j m l, c.At j (.await x m) l → c.mode j ≠ .sleeping) →
      Step h i c { c with program := update c.program i (k ()) }

/-- Threads come from one state to the other by their steps, in any order. -/
def Reaches (h : Handler S σ) : Threads M C S ι α σ → Threads M C S ι α σ → Prop :=
  Relation.ReflTransGen fun c c' => ∃ i, Step h i c c'

end Threads

/-! ### The same threads without mutexes -/

section

variable {M C : Type} {S : Sig} {ι α σ : Type} [DecidableEq ι]

open Function

/-- The threads with what is left of their programs when the mutexes are left out. -/
def Threads.pool (c : Threads M C S ι α σ) : Pool S ι α σ :=
  ⟨fun i => alone (c.program i), c.shared⟩

theorem Threads.pool_update {c : Threads M C S ι α σ} {i : ι}
    {p : Program (Sync M C S) α} (h : alone p = alone (c.program i)) :
    (fun j => alone (update c.program i p j)) = fun j => alone (c.program j) := by
  funext j
  by_cases hj : j = i
  · subst hj
    rw [update_self, h]
  · rw [update_of_ne hj]

/-- A step of a thread is a step without mutexes, or none. -/
theorem Threads.Step.pool [DecidableEq M] [DecidableEq C] {h : Handler S σ} {i : ι}
    {c c' : Threads M C S ι α σ} (hstep : Step h i c c') :
    c'.pool = c.pool ∨ c'.pool = (Pool.step h i c.pool).2 := by
  cases hstep with
  | act hat =>
    refine Or.inr ?_
    have hthread : c.pool.threads i = .call _ _ := congrArg alone hat
    rw [Pool.step, hthread]
    refine congrArg (Pool.mk · _) (funext fun j => ?_)
    dsimp only
    by_cases hj : j = i
    · subst hj
      rw [update_self, update_self]
      rfl
    · rw [update_of_ne hj, update_of_ne hj]
      rfl
  | lock hat | unlock hat | setFlag hat | pass hat | signal hat | signalLost hat =>
    exact Or.inl (congrArg (Pool.mk · _) (pool_update (congrArg alone hat).symm))
  | wait | sleep | wake | relock => exact Or.inl rfl

/-- The mutexes only take interleavings away. -/
theorem Threads.exec_of_reaches [DecidableEq M] [DecidableEq C] {h : Handler S σ}
    {c c' : Threads M C S ι α σ} (hreach : Reaches h c c') :
    ∃ is, (Pool.exec h is c.pool).2 = c'.pool := by
  induction hreach with
  | refl => exact ⟨[], rfl⟩
  | tail _ hstep ih =>
    obtain ⟨is, his⟩ := ih
    obtain ⟨i, hstep⟩ := hstep
    rcases hstep.pool with hpool | hpool
    · exact ⟨is, his.trans hpool.symm⟩
    · refine ⟨is ++ [i], ?_⟩
      rw [Pool.exec_concat, his, hpool]

end

/-! ## Threads of orderly programs -/

open Function Threads

/-- Thread `i` holds `s i`, and goes on in an orderly way until it holds nothing. -/
structure OrderlyThreads {M C : Type} {S : Sig} {ι α σ : Type} [LT M] (guard : C → M)
    (s : ι → Holding M C) (c : Threads M C S ι α σ) : Prop where
  orderly : ∀ i, Orderly guard (s i) (c.program i) (.only ∅)
  running : ∀ i, c.mode i = .running
  mutexes : ∀ i m, m ∈ (s i).mutexes ↔ c.owner m = some i
  flags : ∀ x, c.flag x = true ↔ ∃ i, x ∈ (s i).raised
  guarded : ∀ i, ∀ x ∈ (s i).raised, guard x ∈ (s i).mutexes

namespace OrderlyThreads

variable {M C : Type} {S : Sig} {ι α σ : Type}

theorem of_start [LT M] {guard : C → M} {program : ι → Program (Sync M C S) α}
    (h : ∀ i, Orderly guard (.only ∅) (program i) (.only ∅)) (shared : σ) :
    OrderlyThreads guard (fun _ => .only ∅) (start program shared) where
  orderly := h
  running _ := rfl
  mutexes _ _ := ⟨fun h => absurd h (Set.notMem_empty _), fun h => absurd h (by simp [start])⟩
  flags _ := ⟨fun h => absurd h (by simp [start]), fun ⟨_, h⟩ => absurd h (Set.notMem_empty _)⟩
  guarded _ _ h := absurd h (Set.notMem_empty _)

section

variable [LT M] {guard : C → M} {s : ι → Holding M C} {c : Threads M C S ι α σ}
  (hc : OrderlyThreads guard s c) {i j : ι}

include hc

theorem allowed {op : Sync.Op M C S} {k} (hat : c.At i op k) : op.Allowed guard (s i) := by
  have h := hc.orderly i
  rw [hat] at h
  exact h.1

theorem owner_unique {m : M} (hi : m ∈ (s i).mutexes) (hj : m ∈ (s j).mutexes) : i = j :=
  Option.some.inj (((hc.mutexes i m).mp hi).symm.trans ((hc.mutexes j m).mp hj))

/-- While a flag is up, the mutex of its condition variable is locked. -/
theorem flag_of_free {x : C} (hfree : c.owner (guard x) = none) : c.flag x = false := by
  rw [← Bool.not_eq_true, hc.flags]
  rintro ⟨i, hi⟩
  have hown := (hc.mutexes i (guard x)).mp (hc.guarded i x hi)
  exact absurd (hfree.symm.trans hown) (Option.some_ne_none i).symm

/-- Whoever comes to wait on a condition variable finds its flag down. -/
theorem flag_at_await {x : C} {m : M} {k} (hat : c.At i (.await x m) k) : c.flag x = false := by
  obtain ⟨rfl, hm, hx⟩ := hc.allowed hat
  rw [← Bool.not_eq_true, hc.flags]
  rintro ⟨j, hj⟩
  obtain rfl := hc.owner_unique hm (hc.guarded j x hj)
  exact hx hj

theorem unfinished_of_owner {m : M} (h : c.owner m = some i) : c.Unfinished i := by
  have hm := (hc.mutexes i m).mpr h
  have ho := hc.orderly i
  unfold Threads.Unfinished Threads.At
  cases hp : c.program i with
  | ret a =>
    rw [hp] at ho
    obtain ho : s i = .only ∅ := ho
    rw [ho] at hm
    exact absurd hm (Set.notMem_empty m)
  | call op k => exact ⟨op, k, rfl⟩

/-! ### One step -/

omit hc [LT M] in
/-- What thread `i` holds has changed elsewhere than in `f`. -/
theorem field_update {β : Type} [DecidableEq ι] (f : Holding M C → β) {v : Holding M C}
    (hv : f v = f (s i)) (j : ι) : f (update s i v j) = f (s j) := by
  by_cases hj : j = i
  · subst hj
    rw [update_self]
    exact hv
  · rw [update_of_ne hj]

/-- Thread `i` has done `op`. -/
theorem advance [DecidableEq ι] {op : Sync.Op M C S} {k} (hat : c.At i op k) (r : op.Res)
    (owner : M → Option ι) (flag : C → Bool) (shared : σ)
    (hmutexes : ∀ j m, m ∈ (update s i (op.after (s i)) j).mutexes ↔ owner m = some j)
    (hflags : ∀ x, flag x = true ↔ ∃ j, x ∈ (update s i (op.after (s i)) j).raised)
    (hguarded : ∀ x ∈ (op.after (s i)).raised, guard x ∈ (op.after (s i)).mutexes) :
    OrderlyThreads guard (update s i (op.after (s i)))
      ⟨update c.program i (k r), c.mode, owner, flag, shared⟩ where
  orderly j := by
    by_cases hj : j = i
    · subst hj
      have h := hc.orderly j
      rw [hat] at h
      dsimp only
      rw [update_self, update_self]
      exact h.2 r
    · dsimp only
      rw [update_of_ne hj, update_of_ne hj]
      exact hc.orderly j
  running := hc.running
  mutexes := hmutexes
  flags := hflags
  guarded j := by
    by_cases hj : j = i
    · subst hj
      rw [update_self]
      exact hguarded
    · rw [update_of_ne hj]
      exact hc.guarded j

/-- An operation that neither locks nor raises anything. -/
theorem advance_same [DecidableEq ι] {op : Sync.Op M C S} {k} (hat : c.At i op k) (r : op.Res)
    (shared : σ) (hafter : op.after (s i) = s i) :
    OrderlyThreads guard s ⟨update c.program i (k r), c.mode, c.owner, c.flag, shared⟩ := by
  have hs : update s i (op.after (s i)) = s := by rw [hafter, update_eq_self]
  have h := hc.advance hat r c.owner c.flag shared
  rw [hs, hafter] at h
  exact h hc.mutexes hc.flags (hc.guarded i)

end

section

variable [Preorder M] {guard : C → M} {s : ι → Holding M C} {c : Threads M C S ι α σ}
  (hc : OrderlyThreads guard s c) [DecidableEq ι] {i : ι}

include hc

theorem lock [DecidableEq M] {m : M} {k} (hat : c.At i (.lock m) k) (hfree : c.owner m = none) :
    OrderlyThreads guard (update s i ((Sync.Op.lock (S := S) m).after (s i)))
      ⟨update c.program i (k ()), c.mode, update c.owner m (some i), c.flag, c.shared⟩ := by
  have hnot : ∀ j, m ∉ (s j).mutexes := by
    intro j hj
    exact absurd (hfree.symm.trans ((hc.mutexes j m).mp hj)) (Option.some_ne_none j).symm
  refine hc.advance hat () _ _ _ (fun j n => ?_) (fun x => ?_) fun x hx => ?_
  · by_cases hn : n = m
    · subst hn
      rw [update_self]
      by_cases hj : j = i
      · subst hj
        rw [update_self]
        exact ⟨fun _ => rfl, fun _ => Set.mem_insert n _⟩
      · rw [update_of_ne hj]
        exact ⟨fun h => absurd h (hnot j), fun h => absurd (Option.some.inj h).symm hj⟩
    · rw [update_of_ne hn, ← hc.mutexes]
      by_cases hj : j = i
      · subst hj
        rw [update_self]
        exact Set.mem_insert_iff.trans (or_iff_right hn)
      · rw [update_of_ne hj]
  · rw [hc.flags]
    exact exists_congr fun j => (Set.ext_iff.mp (field_update Holding.raised (by rfl) j) x).symm
  · exact Set.mem_insert_of_mem m (hc.guarded i x hx)

theorem unlock [DecidableEq M] {m : M} {k} (hat : c.At i (.unlock m) k) :
    OrderlyThreads guard (update s i ((Sync.Op.unlock (S := S) m).after (s i)))
      ⟨update c.program i (k ()), c.mode, update c.owner m none, c.flag, c.shared⟩ := by
  obtain ⟨hm, hraised⟩ := hc.allowed hat
  refine hc.advance hat () _ _ _ (fun j n => ?_) (fun x => ?_) fun x hx => ?_
  · by_cases hn : n = m
    · subst hn
      rw [update_self]
      refine iff_of_false (fun h => ?_) (Option.some_ne_none j).symm
      by_cases hj : j = i
      · subst hj
        rw [update_self] at h
        exact h.2 rfl
      · rw [update_of_ne hj] at h
        exact hj (hc.owner_unique h hm)
    · rw [update_of_ne hn, ← hc.mutexes]
      by_cases hj : j = i
      · subst hj
        rw [update_self]
        exact ⟨fun h => h.1, fun h => ⟨h, hn⟩⟩
      · rw [update_of_ne hj]
  · rw [hc.flags]
    exact exists_congr fun j => (Set.ext_iff.mp (field_update Holding.raised (by rfl) j) x).symm
  · exact ⟨hc.guarded i x hx, hraised x hx⟩

theorem setFlag [DecidableEq C] {x : C} {b : Bool} {k} (hat : c.At i (.setFlag x b) k) :
    OrderlyThreads guard (update s i ((Sync.Op.setFlag (S := S) x b).after (s i)))
      ⟨update c.program i (k ()), c.mode, c.owner, update c.flag x b, c.shared⟩ := by
  have hheld : guard x ∈ (s i).mutexes := hc.allowed hat
  have hother : ∀ j, x ∈ (s j).raised → j = i :=
    fun j hj => hc.owner_unique (hc.guarded j x hj) hheld
  refine hc.advance hat () _ _ _ (fun j n => ?_) (fun y => ?_) fun y hy => ?_
  · rw [← hc.mutexes]
    exact Set.ext_iff.mp (field_update Holding.mutexes (by cases b <;> rfl) j) n
  · by_cases hy : y = x
    · subst hy
      rw [update_self]
      cases b with
      | true => exact iff_of_true rfl ⟨i, by rw [update_self]; exact Set.mem_insert y _⟩
      | false =>
        refine iff_of_false Bool.false_ne_true ?_
        rintro ⟨j, hj⟩
        by_cases hji : j = i
        · subst hji
          rw [update_self] at hj
          exact hj.2 rfl
        · rw [update_of_ne hji] at hj
          exact hji (hother j hj)
    · rw [update_of_ne hy, hc.flags]
      refine exists_congr fun j => ?_
      by_cases hj : j = i
      · subst hj
        rw [update_self]
        cases b with
        | true => exact (Set.mem_insert_iff.trans (or_iff_right hy)).symm
        | false => exact ⟨fun h => ⟨h, hy⟩, fun h => h.1⟩
      · rw [update_of_ne hj]
  · cases b with
    | true =>
      rcases Set.mem_insert_iff.mp hy with rfl | hy
      · exact hheld
      · exact hc.guarded i y hy
    | false => exact hc.guarded i y hy.1

theorem step [DecidableEq M] [DecidableEq C] {h : Handler S σ} {c' : Threads M C S ι α σ}
    (hstep : Step h i c c') : ∃ s', OrderlyThreads guard s' c' := by
  cases hstep with
  | lock hat _ hfree => exact ⟨_, hc.lock hat hfree⟩
  | unlock hat => exact ⟨_, hc.unlock hat⟩
  | setFlag hat => exact ⟨_, hc.setFlag hat⟩
  | act hat => exact ⟨s, hc.advance_same hat _ _ rfl⟩
  | pass hat => exact ⟨s, hc.advance_same hat () _ rfl⟩
  | signalLost hat => exact ⟨s, hc.advance_same hat () _ rfl⟩
  | wait hat _ hflag => exact absurd hflag (by rw [hc.flag_at_await hat]; simp)
  | sleep _ hmode => exact absurd hmode (by rw [hc.running]; decide)
  | wake _ hmode => exact absurd hmode (by rw [hc.running]; decide)
  | relock _ hmode => exact absurd hmode (by rw [hc.running]; decide)
  | signal _ _ _ hmode => exact absurd hmode (by rw [hc.running]; decide)

/-! ### Every run -/

theorem reaches [DecidableEq M] [DecidableEq C] {h : Handler S σ} {c' : Threads M C S ι α σ}
    (hreach : Reaches h c c') : ∃ s', OrderlyThreads guard s' c' := by
  induction hreach with
  | refl => exact ⟨s, hc⟩
  | tail _ hstep ih =>
    obtain ⟨s', hs⟩ := ih
    obtain ⟨j, hstep⟩ := hstep
    exact hs.step hstep

end

section

variable [Preorder M] {guard : C → M} {s : ι → Holding M C} {c : Threads M C S ι α σ}
  (hc : OrderlyThreads guard s c)

include hc

/-- Blocked is only who waits for a mutex above all that it holds. -/
theorem blocked_cases {i : ι} (h : c.Blocked i) :
    ∃ m j, c.owner m = some j ∧ ∀ n ∈ (s i).mutexes, n < m := by
  cases h with
  | @lock m k hat _ howner =>
    obtain ⟨j, hj⟩ := Option.ne_none_iff_exists'.mp howner
    exact ⟨m, j, hj, hc.allowed hat⟩
  | sleeping _ hmode => exact absurd hmode (by rw [hc.running]; decide)
  | woken _ hmode => exact absurd hmode (by rw [hc.running]; decide)

/-- From an owner, along the mutexes that the owners wait for, one comes to an owner that
waits for none. -/
theorem exists_not_blocked_of_owner [WellFoundedGT M] (m : M) {i : ι}
    (hi : c.owner m = some i) : ∃ j, c.Unfinished j ∧ ¬ c.Blocked j := by
  induction m using WellFoundedGT.induction generalizing i with
  | ind m ih =>
    by_cases hb : c.Blocked i
    · obtain ⟨n, j, hj, habove⟩ := hc.blocked_cases hb
      exact ih n (habove m ((hc.mutexes i m).mpr hi)) hj
    · exact ⟨i, hc.unfinished_of_owner hi, hb⟩

/-- There is no deadlock. -/
theorem exists_not_blocked [WellFoundedGT M] {i : ι} (hi : c.Unfinished i) :
    ∃ j, c.Unfinished j ∧ ¬ c.Blocked j := by
  by_cases hb : c.Blocked i
  · obtain ⟨m, j, hj, -⟩ := hc.blocked_cases hb
    exact hc.exists_not_blocked_of_owner m hj
  · exact ⟨i, hi, hb⟩

/-- Who is not blocked can go on. -/
theorem exists_step [DecidableEq ι] [DecidableEq M] [DecidableEq C] (h : Handler S σ) {i : ι}
    (hi : c.Unfinished i) (hb : ¬ c.Blocked i) : ∃ c', Step h i c c' := by
  obtain ⟨op, k, hat⟩ := hi
  have hmode := hc.running i
  cases op with
  | lock m =>
    by_cases hfree : c.owner m = none
    · exact ⟨_, .lock hat hmode hfree⟩
    · exact absurd (.lock hat hmode hfree) hb
  | unlock m => exact ⟨_, .unlock hat hmode⟩
  | await x m => exact ⟨_, .pass hat hmode (hc.flag_at_await hat)⟩
  | signal x =>
    exact ⟨_, .signalLost hat hmode fun j m l _ hj => absurd hj (by rw [hc.running]; decide)⟩
  | setFlag x b => exact ⟨_, .setFlag hat hmode⟩
  | act op => exact ⟨_, .act hat hmode⟩

end

end OrderlyThreads

end Interaction
