import Mathlib.Logic.Basic

/-!
# Programs over a signature of operations

A program is a tree of operation calls: it either returns a value or calls one
operation and goes on with the answer. The same program is read in two ways.

* `Program.run`: a handler answers every operation and updates a state; the whole
  program is one sequential computation.
* `Program.Path`: the list of operations with their answers along one branch, with
  the value at its end. Nothing is said about who gave the answers, so a path is what
  one thread does in any interleaving with others (`Interaction/Pool.lean`).

`Program.expand` replaces operations by programs over another signature, as a linker
replaces the symbols of one translation unit by the code of another.
-/

namespace Interaction

/-- The operations a program may call, each with the type of its answers. -/
structure Sig where
  Op : Type
  Res : Op → Type

/-- A program over `S` with results in `α`. -/
inductive Program (S : Sig) (α : Type) : Type
  | ret (a : α)
  | call (op : S.Op) (k : S.Res op → Program S α)

/-- A handler answers each operation and updates its state. -/
abbrev Handler (S : Sig) (σ : Type) : Type := (op : S.Op) → σ → S.Res op × σ

/-- An operation together with the answer it got. -/
abbrev Event (S : Sig) : Type := (op : S.Op) × S.Res op

namespace Program

variable {S T : Sig} {σ α β γ : Type}

def bind : Program S α → (α → Program S β) → Program S β
  | ret a, f => f a
  | call op k, f => call op fun r => (k r).bind f

instance : Monad (Program S) where
  pure := ret
  bind := bind

/-- The program that calls `op` and returns its answer. -/
def send (op : S.Op) : Program S (S.Res op) := call op ret

theorem bind_ret (p : Program S α) : p.bind ret = p := by
  induction p with
  | ret a => rfl
  | call op k ih => exact congrArg (call op) (funext ih)

theorem bind_assoc (p : Program S α) (f : α → Program S β) (g : β → Program S γ) :
    (p.bind f).bind g = p.bind fun a => (f a).bind g := by
  induction p with
  | ret a => rfl
  | call op k ih => exact congrArg (call op) (funext ih)

instance : LawfulMonad (Program S) :=
  LawfulMonad.mk' _ (fun p => bind_ret p) (fun _ _ => rfl) (fun p f g => bind_assoc p f g)

/-- The value of a program that has returned. -/
def value : Program S α → Option α
  | ret a => some a
  | call _ _ => none

theorem value_eq_some {p : Program S α} {a : α} : p.value = some a ↔ p = ret a := by
  cases p <;> simp [value]

/-! ## Sequential runs -/

/-- The answer of `p` and the state it leaves, when `h` answers its operations. -/
def run (h : Handler S σ) : Program S α → σ → α × σ
  | ret a, s => (a, s)
  | call op k, s => (k (h op s).1).run h (h op s).2

@[simp] theorem run_pure (h : Handler S σ) (a : α) (s : σ) :
    (pure a : Program S α).run h s = (a, s) := rfl

@[simp] theorem run_send (h : Handler S σ) (op : S.Op) (s : σ) : (send op).run h s = h op s := rfl

@[simp] theorem run_bind (h : Handler S σ) (p : Program S α) (f : α → Program S β) (s : σ) :
    (p >>= f).run h s = (f (p.run h s).1).run h (p.run h s).2 := by
  change (p.bind f).run h s = _
  induction p generalizing s with
  | ret a => rfl
  | call op k ih => exact ih _ _

@[simp] theorem run_ite (h : Handler S σ) (c : Prop) [Decidable c] (p q : Program S α) (s : σ) :
    (if c then p else q).run h s = if c then p.run h s else q.run h s := by
  split <;> rfl

@[simp] theorem run_map (h : Handler S σ) (p : Program S α) (f : α → β) (s : σ) :
    (f <$> p).run h s = (f (p.run h s).1, (p.run h s).2) := by
  rw [← bind_pure_comp, run_bind, run_pure]

/-- The operations that a run calls, each with its answer. -/
def trace (h : Handler S σ) : Program S α → σ → List (Event S)
  | ret _, _ => []
  | call op k, s => ⟨op, (h op s).1⟩ :: (k (h op s).1).trace h (h op s).2

@[simp] theorem trace_bind (h : Handler S σ) (p : Program S α) (f : α → Program S β) (s : σ) :
    (p >>= f).trace h s = p.trace h s ++ (f (p.run h s).1).trace h (p.run h s).2 := by
  change (p.bind f).trace h s = _
  induction p generalizing s with
  | ret a => rfl
  | call op k ih => exact congrArg (_ :: ·) (ih _ _)

/-! ## The operations of a program -/

/-- Every operation that the program can come to satisfies `P`. -/
def Uses (P : S.Op → Prop) : Program S α → Prop
  | ret _ => True
  | call op k => P op ∧ ∀ r, (k r).Uses P

theorem uses_pure {P : S.Op → Prop} (a : α) : (pure a : Program S α).Uses P := trivial

theorem uses_send {P : S.Op → Prop} {op : S.Op} (h : P op) : (send op).Uses P :=
  ⟨h, fun _ => trivial⟩

theorem uses_bind {P : S.Op → Prop} {p : Program S α} {f : α → Program S β} (hp : p.Uses P)
    (hf : ∀ a, (f a).Uses P) : (p >>= f).Uses P := by
  change (p.bind f).Uses P
  induction p with
  | ret a => exact hf a
  | call op k ih => exact ⟨hp.1, fun r => ih r (hp.2 r)⟩

theorem Uses.mono {P Q : S.Op → Prop} (hPQ : ∀ op, P op → Q op) {p : Program S α}
    (h : p.Uses P) : p.Uses Q := by
  induction p with
  | ret a => trivial
  | call op k ih => exact ⟨hPQ op h.1, fun r => ih r (h.2 r)⟩

/-- A relation between states that the operations of a program respect is respected by the
program. -/
theorem run_uses {h : Handler S σ} {P : S.Op → Prop} {R : σ → σ → Prop} (hrefl : ∀ s, R s s)
    (htrans : ∀ {a b c}, R a b → R b c → R a c) (hop : ∀ op, P op → ∀ s, R s (h op s).2)
    {p : Program S α} (hp : p.Uses P) (s : σ) : R s (p.run h s).2 := by
  induction p generalizing s with
  | ret a => exact hrefl s
  | call op k ih => exact htrans (hop op hp.1 s) (ih _ (hp.2 _) _)

/-! ## Linking -/

/-- Replace every operation of `p` by the program that `f` gives for it. -/
def expand (f : (op : S.Op) → Program T (S.Res op)) : Program S α → Program T α
  | ret a => ret a
  | call op k => (f op).bind fun r => (k r).expand f

@[simp] theorem expand_send (f : (op : S.Op) → Program T (S.Res op)) (op : S.Op) :
    (send op).expand f = f op := bind_ret _

@[simp] theorem expand_bind (f : (op : S.Op) → Program T (S.Res op)) (p : Program S α)
    (g : α → Program S β) : (p >>= g).expand f = p.expand f >>= fun a => (g a).expand f := by
  change (p.bind g).expand f = (p.expand f).bind _
  induction p with
  | ret a => rfl
  | call op k ih =>
    change (f op).bind (fun r => ((k r).bind g).expand f) = ((f op).bind _).bind _
    rw [bind_assoc]
    exact congrArg (f op).bind (funext ih)

/-! ## Paths -/

/-- `p.Path es a`: with the answers recorded in `es`, in this order, `p` returns `a`. -/
inductive Path : Program S α → List (Event S) → α → Prop
  | ret (a : α) : Path (ret a) [] a
  | call {op : S.Op} {k : S.Res op → Program S α} (r : S.Res op) {es : List (Event S)} {a : α} :
      Path (k r) es a → Path (call op k) (⟨op, r⟩ :: es) a

theorem path_pure {a b : α} {es : List (Event S)} :
    (pure a : Program S α).Path es b ↔ es = [] ∧ b = a := by
  constructor
  · intro h
    cases h
    exact ⟨rfl, rfl⟩
  · rintro ⟨rfl, rfl⟩
    exact .ret _

theorem path_send {op : S.Op} {es : List (Event S)} {r : S.Res op} :
    (send op).Path es r ↔ es = [⟨op, r⟩] := by
  constructor
  · intro h
    cases h with
    | call r h => cases h; rfl
  · rintro rfl
    exact .call r (.ret r)

theorem path_bind {p : Program S α} {f : α → Program S β} {es : List (Event S)} {b : β} :
    (p >>= f).Path es b ↔ ∃ es₁ a es₂, p.Path es₁ a ∧ (f a).Path es₂ b ∧ es = es₁ ++ es₂ := by
  change (p.bind f).Path es b ↔ _
  induction p generalizing es with
  | ret a =>
    constructor
    · intro h
      exact ⟨[], a, es, .ret a, h, rfl⟩
    · rintro ⟨es₁, a', es₂, h₁, h₂, rfl⟩
      cases h₁
      exact h₂
  | call op k ih =>
    constructor
    · intro h
      cases h with
      | call r h =>
        obtain ⟨es₁, a, es₂, h₁, h₂, rfl⟩ := (ih r).mp h
        exact ⟨⟨op, r⟩ :: es₁, a, es₂, .call r h₁, h₂, rfl⟩
    · rintro ⟨es₁, a, es₂, h₁, h₂, rfl⟩
      cases h₁ with
      | call r h₁ => exact .call r ((ih r).mpr ⟨_, a, es₂, h₁, h₂, rfl⟩)

theorem path_send_bind {op : S.Op} {f : S.Res op → Program S β} {es : List (Event S)} {b : β} :
    (send op >>= f).Path es b ↔ ∃ r es', (f r).Path es' b ∧ es = [⟨op, r⟩] ++ es' := by
  rw [path_bind]
  constructor
  · rintro ⟨es₁, r, es', h₁, h₂, rfl⟩
    obtain rfl := path_send.mp h₁
    exact ⟨r, es', h₂, rfl⟩
  · rintro ⟨r, es', h, rfl⟩
    exact ⟨_, r, es', path_send.mpr rfl, h, rfl⟩

/-- A run is a path. -/
theorem path_trace (h : Handler S σ) (p : Program S α) (s : σ) :
    p.Path (p.trace h s) (p.run h s).1 := by
  induction p generalizing s with
  | ret a => exact .ret a
  | call op k ih => exact .call _ (ih _ _)

/-- The program that writes down its operations with their answers, and returns them beside its
result. -/
def logged : Program S α → Program S (List (Event S) × α)
  | ret a => ret ([], a)
  | call op k => call op fun r => (k r).logged >>= fun x => pure (⟨op, r⟩ :: x.1, x.2)

/-- What it has written down is what it has done. -/
theorem path_logged {p : Program S α} {es : List (Event S)} {x : List (Event S) × α}
    (h : p.logged.Path es x) : x.1 = es ∧ p.Path es x.2 := by
  induction p generalizing es x with
  | ret a =>
    cases h
    exact ⟨rfl, .ret a⟩
  | call op k ih =>
    cases h with
    | call r h =>
      obtain ⟨es₁, y, es₂, h₁, h₂, rfl⟩ := path_bind.mp h
      obtain ⟨rfl, rfl⟩ := path_pure.mp h₂
      obtain ⟨rfl, hpath⟩ := ih r h₁
      rw [List.append_nil]
      exact ⟨rfl, .call r hpath⟩

/-- The operations on a path are operations of the program. -/
theorem Path.of_uses {P : S.Op → Prop} {p : Program S α} {es : List (Event S)} {a : α}
    (h : p.Path es a) (hp : p.Uses P) : ∀ e ∈ es, P e.1 := by
  induction h with
  | ret a => simp
  | call r _ ih =>
    intro e he
    rcases List.mem_cons.mp he with rfl | he
    · exact hp.1
    · exact ih (hp.2 r) e he

/-- Every path of the program satisfies `Q`. -/
def EachPath (Q : List (Event S) → Prop) (p : Program S α) : Prop := ∀ es a, p.Path es a → Q es

theorem eachPath_pure {Q : List (Event S) → Prop} (h : Q []) (a : α) :
    (pure a : Program S α).EachPath Q := by
  intro es b hpath
  rw [(path_pure.mp hpath).1]
  exact h

theorem eachPath_send {Q : List (Event S) → Prop} {op : S.Op} (h : ∀ r, Q [⟨op, r⟩]) :
    (send op).EachPath Q := by
  intro es r hpath
  rw [path_send.mp hpath]
  exact h r

/-- A path of the whole is a path of the first program and then one of the second. -/
theorem eachPath_bind {Q R T : List (Event S) → Prop}
    (happ : ∀ {es ds}, Q es → R ds → T (es ++ ds)) {p : Program S α} {f : α → Program S β}
    (hp : p.EachPath Q) (hf : ∀ a, (f a).EachPath R) : (p >>= f).EachPath T := by
  intro es b hpath
  obtain ⟨es₁, a, es₂, h₁, h₂, rfl⟩ := path_bind.mp hpath
  exact happ (hp _ _ h₁) (hf a _ _ h₂)

end Program

end Interaction
