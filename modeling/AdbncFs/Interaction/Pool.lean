import Mathlib.Data.Fintype.Defs
import Mathlib.Logic.Function.Basic
import AdbncFs.Interaction.Program

/-!
# Programs run by threads

Threads share a state; in each step one of them does its next operation, which the handler
answers and which may change the state. A schedule is the list of the threads that are given
a step, and every interleaving is that of some schedule. The trace of a schedule is the list
of the operations done with their answers and their threads.

* `exec_answered`: the trace, without the threads, is a sequential run of operations.
* `exec_path`: the part of the trace that belongs to a thread that has returned is a path of
  its program.
-/

namespace Interaction

variable {S : Sig} {ι α σ : Type}

/-! ## Runs of operations -/

/-- The handler gives the answers of `es`, one after another, from `s` to `s'`. -/
def Answered (h : Handler S σ) : List (Event S) → σ → σ → Prop
  | [], s, s' => s' = s
  | e :: es, s, s' => e.2 = (h e.1 s).1 ∧ Answered h es (h e.1 s).2 s'

theorem answered_append {h : Handler S σ} {es ds : List (Event S)} {s s' : σ} :
    Answered h (es ++ ds) s s' ↔ ∃ t, Answered h es s t ∧ Answered h ds t s' := by
  induction es generalizing s with
  | nil => simp [Answered]
  | cons e es ih => simp [Answered, ih, and_assoc]

/-- A relation that the operations in `es` respect holds from the first state to the
last. -/
theorem answered_induct {h : Handler S σ} {P : S.Op → Prop} {R : σ → σ → Prop}
    (hrefl : ∀ s, R s s) (htrans : ∀ {a b c}, R a b → R b c → R a c)
    (hop : ∀ op, P op → ∀ s, R s (h op s).2) {es : List (Event S)} {s s' : σ}
    (hes : ∀ e ∈ es, P e.1) (ha : Answered h es s s') : R s s' := by
  induction es generalizing s with
  | nil =>
    obtain rfl := ha
    exact hrefl _
  | cons e es ih =>
    exact htrans (hop e.1 (hes e List.mem_cons_self) s)
      (ih (fun x hx => hes x (List.mem_cons_of_mem _ hx)) ha.2)

/-- The state after the operations of `es`. -/
def after (h : Handler S σ) (es : List (Event S)) (s : σ) : σ :=
  es.foldl (fun s e => (h e.1 s).2) s

theorem Answered.eq_after {h : Handler S σ} {es : List (Event S)} {s s' : σ}
    (ha : Answered h es s s') : s' = after h es s := by
  induction es generalizing s with
  | nil => exact ha
  | cons e es ih => exact ih ha.2

/-! ## The operations of a thread -/

/-- The operations done, with their threads. -/
abbrev Trace (S : Sig) (ι : Type) := List (ι × Event S)

variable [DecidableEq ι]

/-- What thread `i` has done. -/
def proj (i : ι) (τ : Trace S ι) : List (Event S) :=
  τ.filterMap fun x => if x.1 = i then some x.2 else none

theorem proj_append (i : ι) (τ υ : Trace S ι) : proj i (τ ++ υ) = proj i τ ++ proj i υ :=
  List.filterMap_append

theorem proj_cons_self (i : ι) (e : Event S) (τ : Trace S ι) :
    proj i ((i, e) :: τ) = e :: proj i τ := by
  simp [proj]

theorem proj_cons_ne {i j : ι} (h : j ≠ i) (e : Event S) (τ : Trace S ι) :
    proj i ((j, e) :: τ) = proj i τ := by
  simp [proj, h]

theorem mem_proj {i : ι} {e : Event S} {τ : Trace S ι} : e ∈ proj i τ ↔ (i, e) ∈ τ := by
  simp only [proj, List.mem_filterMap, Option.ite_none_right_eq_some, Option.some.injEq]
  constructor
  · rintro ⟨⟨j, d⟩, h, rfl, rfl⟩
    exact h
  · intro h
    exact ⟨_, h, rfl, rfl⟩

/-- A place in what a thread has done, in the trace. -/
theorem proj_eq_append_cons {i : ι} {e : Event S} {as bs : List (Event S)} {τ : Trace S ι}
    (h : proj i τ = as ++ e :: bs) :
    ∃ pre post, τ = pre ++ (i, e) :: post ∧ proj i pre = as ∧ proj i post = bs := by
  induction τ generalizing as with
  | nil => cases as <;> cases h
  | cons x τ ih =>
    obtain ⟨j, d⟩ := x
    by_cases hj : j = i
    · subst hj
      rw [proj_cons_self] at h
      cases as with
      | nil =>
        cases h
        exact ⟨[], τ, rfl, rfl, rfl⟩
      | cons a as =>
        rw [List.cons_append, List.cons.injEq] at h
        obtain ⟨rfl, h⟩ := h
        obtain ⟨pre, post, rfl, rfl, rfl⟩ := ih h
        exact ⟨(j, d) :: pre, post, rfl, proj_cons_self _ _ _, rfl⟩
    · rw [proj_cons_ne hj] at h
      obtain ⟨pre, post, rfl, rfl, rfl⟩ := ih h
      exact ⟨(j, d) :: pre, post, rfl, proj_cons_ne hj _ _, rfl⟩

/-! ## Schedules -/

/-- Threads, each with the rest of its program, and the state they share. -/
structure Pool (S : Sig) (ι α σ : Type) where
  threads : ι → Program S α
  shared : σ

namespace Pool

/-- Every thread has returned. -/
def Done (c : Pool S ι α σ) : Prop := ∀ i, (c.threads i).value.isSome

/-- Thread `i` does its next operation, when it has one. -/
def step (h : Handler S σ) (i : ι) (c : Pool S ι α σ) : Trace S ι × Pool S ι α σ :=
  match c.threads i with
  | .ret _ => ([], c)
  | .call op k =>
    ([(i, ⟨op, (h op c.shared).1⟩)],
      ⟨Function.update c.threads i (k (h op c.shared).1), (h op c.shared).2⟩)

/-- The trace of a schedule and the pool after it. -/
def exec (h : Handler S σ) : List ι → Pool S ι α σ → Trace S ι × Pool S ι α σ
  | [], c => ([], c)
  | i :: is, c =>
    let r := step h i c
    let r' := exec h is r.2
    (r.1 ++ r'.1, r'.2)

theorem exec_answered (h : Handler S σ) (is : List ι) (c : Pool S ι α σ) :
    Answered h ((exec h is c).1.map Prod.snd) c.shared (exec h is c).2.shared := by
  induction is generalizing c with
  | nil => rfl
  | cons i is ih =>
    rw [exec]
    dsimp only
    rw [List.map_append, answered_append]
    refine ⟨(step h i c).2.shared, ?_, ih _⟩
    unfold step
    split
    · rfl
    · exact ⟨rfl, rfl⟩

instance [Fintype ι] (c : Pool S ι α σ) : Decidable c.Done :=
  inferInstanceAs (Decidable (∀ i, (c.threads i).value.isSome = true))

omit [DecidableEq ι] in
theorem Done.exists_ret {c : Pool S ι α σ} (h : c.Done) (i : ι) : ∃ a, c.threads i = .ret a := by
  obtain ⟨a, ha⟩ := Option.isSome_iff_exists.mp (h i)
  exact ⟨a, Program.value_eq_some.mp ha⟩

/-- What a thread has done, followed by a path of the rest of its program, is a path of its
program. -/
theorem exec_path_append {h : Handler S σ} {is : List ι} {c : Pool S ι α σ} {i : ι}
    {es : List (Event S)} {a : α} (hrest : ((exec h is c).2.threads i).Path es a) :
    (c.threads i).Path (proj i (exec h is c).1 ++ es) a := by
  induction is generalizing c with
  | nil => exact hrest
  | cons j is ih =>
    have hpath := ih (c := (step h j c).2) hrest
    rw [exec]
    dsimp only
    rw [proj_append, List.append_assoc]
    unfold step at hpath ⊢
    split at hpath
    · exact hpath
    · rename_i op k hc
      by_cases hj : j = i
      · subst hj
        dsimp only at hpath ⊢
        rw [Function.update_self] at hpath
        rw [hc, proj_cons_self]
        exact .call _ hpath
      · dsimp only at hpath ⊢
        rw [Function.update_of_ne (Ne.symm hj)] at hpath
        rw [proj_cons_ne hj]
        exact hpath

/-- A thread that has returned `a` has done a path of its program to `a`. -/
theorem exec_path {h : Handler S σ} {is : List ι} {c : Pool S ι α σ} {i : ι} {a : α}
    (hret : (exec h is c).2.threads i = .ret a) :
    (c.threads i).Path (proj i (exec h is c).1) a := by
  have hrest : ((exec h is c).2.threads i).Path [] a := by
    rw [hret]
    exact .ret a
  have hpath := exec_path_append hrest
  rwa [List.append_nil] at hpath

/-- A thread has done the beginning of a path of its program. -/
theorem exec_prefix (h : Handler S σ) (is : List ι) (c : Pool S ι α σ) (i : ι) :
    ∃ es a, (c.threads i).Path (proj i (exec h is c).1 ++ es) a :=
  ⟨_, _, exec_path_append (Program.path_trace h ((exec h is c).2.threads i) (exec h is c).2.shared)⟩

theorem exec_concat (h : Handler S σ) (is : List ι) (i : ι) (c : Pool S ι α σ) :
    (exec h (is ++ [i]) c).2 = (step h i (exec h is c).2).2 := by
  induction is generalizing c with
  | nil => rfl
  | cons j is ih => exact ih _

end Pool

end Interaction
