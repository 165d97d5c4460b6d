import AdbncFs.Interaction.Pool

/-!
# Protocols

A protocol says, by a state of its own, which operation a program may call next and to which
states an answer leads. An answer that leads nowhere is one that the program may count on not
to get. `Program.Obeys` holds of a program that only calls what it may, with a condition on its
result and on the state at its end; it follows the structure of the program.

What is obeyed is kept in two ways: by each path of a program (`Obeys.follows`), when every
answer leads somewhere, and by threads in any interleaving (`Pool.exec_obeys`), when the shared
state keeps an invariant that justifies the answers.
-/

namespace Interaction

structure Protocol (S : Sig) (ρ : Type) where
  allows : ρ → S.Op → Prop
  next : ρ → (op : S.Op) → S.Res op → ρ → Prop

variable {S T : Sig} {ρ σ α β ι : Type}

/-- The events are allowed one after the other, and lead from one state to the other. -/
def Protocol.Follows (P : Protocol S ρ) : ρ → List (Event S) → ρ → Prop
  | s, [], t => s = t
  | s, e :: es, t => P.allows s e.1 ∧ ∃ s', P.next s e.1 e.2 s' ∧ P.Follows s' es t

namespace Program

/-- The program only calls what the protocol allows, and ends as `Q` says. -/
def Obeys (P : Protocol S ρ) : ρ → Program S α → (α → ρ → Prop) → Prop
  | s, .ret a, Q => Q a s
  | s, .call op k, Q => P.allows s op ∧ ∀ r s', P.next s op r s' → Obeys P s' (k r) Q

variable {P : Protocol S ρ} {s : ρ}

theorem obeys_pure {Q : α → ρ → Prop} {a : α} (h : Q a s) :
    (pure a : Program S α).Obeys P s Q := h

theorem obeys_send {op : S.Op} (h : P.allows s op) : (send op).Obeys P s (P.next s op) :=
  ⟨h, fun _ _ hnext => hnext⟩

theorem Obeys.mono {Q R : α → ρ → Prop} {p : Program S α} (h : p.Obeys P s Q)
    (hQR : ∀ a s, Q a s → R a s) : p.Obeys P s R := by
  induction p generalizing s with
  | ret a => exact hQR a s h
  | call op k ih => exact ⟨h.1, fun r s' hnext => ih r (h.2 r s' hnext)⟩

theorem Obeys.bind {Q : α → ρ → Prop} {R : β → ρ → Prop} {p : Program S α}
    {f : α → Program S β} (hp : p.Obeys P s Q) (hf : ∀ a s, Q a s → (f a).Obeys P s R) :
    (p >>= f).Obeys P s R := by
  change (p.bind f).Obeys P s R
  induction p generalizing s with
  | ret a => exact hf a s hp
  | call op k ih => exact ⟨hp.1, fun r s' hnext => ih r (hp.2 r s' hnext)⟩

theorem obeys_send_bind {R : β → ρ → Prop} {op : S.Op} {f : S.Res op → Program S β}
    (h : P.allows s op) (hf : ∀ r s', P.next s op r s' → (f r).Obeys P s' R) :
    (send op >>= f).Obeys P s R := (obeys_send h).bind hf

/-- Each operation is replaced by a program that does what the protocol says of it. -/
theorem Obeys.expand {P' : Protocol T ρ} {f : (op : S.Op) → Program T (S.Res op)}
    {Q : α → ρ → Prop} {p : Program S α} (h : p.Obeys P s Q)
    (hf : ∀ s op, P.allows s op → (f op).Obeys P' s (P.next s op)) :
    (p.expand f).Obeys P' s Q := by
  induction p generalizing s with
  | ret a => exact h
  | call op k ih => exact (hf s op h.1).bind fun r s' hnext => ih r (h.2 r s' hnext)

/-- Each operation is replaced by a program over other operations, with a protocol of its own
whose states are related to those of the first one. What the replacement does is then a path of
the first program. -/
theorem Obeys.refine {ρ' : Type} {P' : Protocol T ρ'} {R : ρ → ρ' → Prop}
    {f : (op : S.Op) → Program T (S.Res op)} {Q : α → ρ → Prop} {p : Program S α} {s' : ρ'}
    (hf : ∀ s s' op, R s s' → P.allows s op →
      (f op).Obeys P' s' fun r t' => ∃ t, P.next s op r t ∧ R t t')
    (h : p.Obeys P s Q) (hrel : R s s') :
    (p.expand f).Obeys P' s' fun a t' =>
      ∃ es t, p.Path es a ∧ P.Follows s es t ∧ Q a t ∧ R t t' := by
  induction p generalizing s s' with
  | ret a => exact obeys_pure ⟨[], s, .ret a, rfl, h, hrel⟩
  | call op k ih =>
    obtain ⟨hallows, hk⟩ := h
    refine (hf s s' op hrel hallows).bind fun r t' ht => ?_
    obtain ⟨s₁, hnext, hrel₁⟩ := ht
    refine (ih r (hk r s₁ hnext) hrel₁).mono fun a u' hu => ?_
    obtain ⟨es, t, hpath, hfollows, hQ, hrel'⟩ := hu
    exact ⟨⟨op, r⟩ :: es, t, .call r hpath, ⟨hallows, s₁, hnext, hfollows⟩, hQ, hrel'⟩

/-- Writing down what it does changes nothing of it. -/
theorem Obeys.logged {Q : α → ρ → Prop} {p : Program S α} (h : p.Obeys P s Q) :
    p.logged.Obeys P s fun x t => Q x.2 t := by
  induction p generalizing s with
  | ret a => exact h
  | call op k ih =>
    exact ⟨h.1, fun r s' hnext => (ih r (h.2 r s' hnext)).bind fun _ _ hx => obeys_pure hx⟩

/-- A path of such a program, when every answer leads somewhere. -/
theorem Obeys.follows (htotal : ∀ s op r, P.allows s op → ∃ s', P.next s op r s')
    {Q : α → ρ → Prop} {p : Program S α} (h : p.Obeys P s Q) {es : List (Event S)} {a : α}
    (hpath : p.Path es a) : ∃ s', P.Follows s es s' ∧ Q a s' := by
  induction hpath generalizing s with
  | ret a => exact ⟨s, rfl, h⟩
  | @call op k r es a _ ih =>
    obtain ⟨hallows, hk⟩ := h
    obtain ⟨s₁, hnext⟩ := htotal s op r hallows
    obtain ⟨s₂, hfollows, ha⟩ := ih (hk r s₁ hnext)
    exact ⟨s₂, ⟨hallows, s₁, hnext, hfollows⟩, ha⟩

/-- What holds at the end of a path, when its answers are ones that the protocol knows. -/
theorem Obeys.result {Q : α → ρ → Prop} {p : Program S α} (h : p.Obeys P s Q) {t : ρ}
    {es : List (Event S)} {a : α} (hpath : p.Path es a) (hfollows : P.Follows s es t) : Q a t := by
  induction hpath generalizing s with
  | ret a =>
    obtain rfl := hfollows
    exact h
  | call r _ ih =>
    obtain ⟨-, s', hnext, hrest⟩ := hfollows
    exact ih (h.2 r s' hnext) hrest

/-- A run, when the handler's answers are ones that the protocol knows of the state that `abs`
reads off the handler's. -/
theorem follows_trace {h : Handler S σ} (abs : σ → ρ)
    (hstep : ∀ op x, P.allows (abs x) op ∧ P.next (abs x) op (h op x).1 (abs (h op x).2))
    (p : Program S α) (x : σ) :
    P.Follows (abs x) (p.trace h x) (abs (p.run h x).2) := by
  induction p generalizing x with
  | ret a => rfl
  | call op k ih => exact ⟨(hstep op x).1, _, (hstep op x).2, ih _ _⟩

/-! ### Programs that throw -/

section

variable {ε : Type}

/-- The program only calls what the protocol allows. It ends as `Q` says when it returns, and as
`E` says when it throws. -/
def ObeysExcept (P : Protocol S ρ) (s : ρ) (x : ExceptT ε (Program S) α) (Q : α → ρ → Prop)
    (E : ε → ρ → Prop) : Prop :=
  x.run.Obeys P s fun
    | .ok a, t => Q a t
    | .error e, t => E e t

variable {Q : α → ρ → Prop} {R : β → ρ → Prop} {E : ε → ρ → Prop}

theorem obeysExcept_pure {a : α} (h : Q a s) :
    ObeysExcept P s (pure a : ExceptT ε (Program S) α) Q E := h

theorem obeysExcept_throw {e : ε} (h : E e s) :
    ObeysExcept P s (throw e : ExceptT ε (Program S) α) Q E := h

theorem ObeysExcept.mono {Q' : α → ρ → Prop} {E' : ε → ρ → Prop}
    {x : ExceptT ε (Program S) α} (h : ObeysExcept P s x Q E) (hQ : ∀ a t, Q a t → Q' a t)
    (hE : ∀ e t, E e t → E' e t) : ObeysExcept P s x Q' E' := by
  refine Obeys.mono h fun r t hr => ?_
  cases r with
  | ok a => exact hQ a t hr
  | error e => exact hE e t hr

theorem ObeysExcept.bind {x : ExceptT ε (Program S) α} {f : α → ExceptT ε (Program S) β}
    (hx : ObeysExcept P s x Q E) (hf : ∀ a t, Q a t → ObeysExcept P t (f a) R E) :
    ObeysExcept P s (x >>= f) R E := by
  rw [ObeysExcept, ExceptT.run_bind]
  refine Obeys.bind hx fun r t hr => ?_
  cases r with
  | ok a => exact hf a t hr
  | error e => exact obeys_pure hr

/-- A program that does not throw comes first. -/
theorem Obeys.bind_lift {p : Program S α} {f : α → ExceptT ε (Program S) β}
    (hp : p.Obeys P s Q) (hf : ∀ a t, Q a t → ObeysExcept P t (f a) R E) :
    ObeysExcept P s (liftM p >>= f) R E := by
  change ObeysExcept P s (ExceptT.lift p >>= f) R E
  rw [ObeysExcept, ExceptT.run_bind_lift]
  exact hp.bind hf

/-- A path that returns, and one that goes on from there. -/
theorem Path.bind_except {x : ExceptT ε (Program S) α} {f : α → ExceptT ε (Program S) β}
    {es ds : List (Event S)} {a : α} {r : Except ε β} (hx : x.run.Path es (.ok a))
    (hf : (f a).run.Path ds r) : (x >>= f).run.Path (es ++ ds) r := by
  rw [ExceptT.run_bind]
  exact path_bind.mpr ⟨es, .ok a, ds, hx, hf, rfl⟩

theorem Path.bind_lift {p : Program S α} {f : α → ExceptT ε (Program S) β}
    {es ds : List (Event S)} {a : α} {r : Except ε β} (hp : p.Path es a)
    (hf : (f a).run.Path ds r) :
    (liftM p >>= f : ExceptT ε (Program S) β).run.Path (es ++ ds) r := by
  change (ExceptT.lift p >>= f).run.Path (es ++ ds) r
  rw [ExceptT.run_bind_lift]
  exact path_bind.mpr ⟨es, a, ds, hp, hf, rfl⟩

end

end Program

namespace Protocol

variable {P : Protocol S ρ} {s t : ρ} {es ds : List (Event S)}

theorem follows_append :
    P.Follows s (es ++ ds) t ↔ ∃ s', P.Follows s es s' ∧ P.Follows s' ds t := by
  induction es generalizing s with
  | nil =>
    constructor
    · exact fun h => ⟨s, rfl, h⟩
    · rintro ⟨s', rfl, h⟩
      exact h
  | cons e es ih =>
    constructor
    · rintro ⟨hallows, s₁, hnext, h⟩
      obtain ⟨s', h₁, h₂⟩ := ih.mp h
      exact ⟨s', ⟨hallows, s₁, hnext, h₁⟩, h₂⟩
    · rintro ⟨s', ⟨hallows, s₁, hnext, h₁⟩, h₂⟩
      exact ⟨hallows, s₁, hnext, ih.mpr ⟨s', h₁, h₂⟩⟩

/-- Where an event stands, its operation is allowed. -/
theorem Follows.allows (h : P.Follows s es t) {e : Event S} (he : e ∈ es) :
    ∃ s', P.allows s' e.1 := by
  obtain ⟨pre, post, rfl⟩ := List.append_of_mem he
  obtain ⟨s', -, hallows, -⟩ := follows_append.mp h
  exact ⟨s', hallows⟩

/-! ### Records -/

/-- The protocol that allows everything and records what happens. -/
def recording (after : ρ → Event S → ρ) : Protocol S ρ where
  allows _ _ := True
  next s op r t := t = after s ⟨op, r⟩

theorem follows_recording {after : ρ → Event S → ρ} :
    (recording after).Follows s es t ↔ t = es.foldl after s := by
  induction es generalizing s with
  | nil => exact eq_comm
  | cons e es ih =>
    constructor
    · rintro ⟨-, s', rfl, h⟩
      exact ih.mp h
    · exact fun h => ⟨trivial, _, rfl, ih.mpr h⟩

/-- What the record of a path says of the result. -/
theorem recorded {after : ρ → Event S → ρ} {p : Program S α} {Q : α → ρ → Prop}
    (h : p.Obeys (recording after) s Q) {a : α} (hpath : p.Path es a) : Q a (es.foldl after s) :=
  h.result hpath (follows_recording.mpr rfl)

/-! ### Answers that do not come -/

/-- A handler that answers only the operations that `answers` says; a program that calls another
one is stuck. -/
def answering (answers : σ → S.Op → Prop) (h : Handler S σ) : Protocol S σ where
  allows := answers
  next x op r y := h op x = (r, y)

/-- A program that is never stuck: its run goes through. -/
theorem answering_run {answers : σ → S.Op → Prop} {h : Handler S σ} {p : Program S α}
    {Q : α → σ → Prop} {x : σ} (hp : p.Obeys (answering answers h) x Q) :
    (answering answers h).Follows x (p.trace h x) (p.run h x).2 ∧
      Q (p.run h x).1 (p.run h x).2 := by
  induction p generalizing x with
  | ret a => exact ⟨rfl, hp⟩
  | call op k ih =>
    obtain ⟨hanswers, hk⟩ := hp
    obtain ⟨hfollows, hQ⟩ := ih _ (hk _ _ rfl)
    exact ⟨⟨hanswers, _, rfl, hfollows⟩, hQ⟩

end Protocol

/-! ## Threads -/

open Function

variable [DecidableEq ι] (P : ι → Protocol S ρ) {h : Handler S σ} (Inv : (ι → ρ) → σ → Prop)

/-- Threads that obey protocols, each with a state of its own, keep to them in every
interleaving. The invariant says for each operation that the answer it gets is one that the
protocol of the thread knows. -/
theorem Pool.exec_obeys {Q : ι → α → ρ → Prop}
    (hstep : ∀ s x i op, Inv s x → (P i).allows (s i) op →
      ∃ t, (P i).next (s i) op (h op x).1 t ∧ Inv (update s i t) (h op x).2)
    (is : List ι) {c : Pool S ι α σ} {s : ι → ρ} (hinv : Inv s c.shared)
    (hthreads : ∀ i, (c.threads i).Obeys (P i) (s i) (Q i)) :
    ∃ t : ι → ρ, Inv t (exec h is c).2.shared ∧
      (∀ i, ((exec h is c).2.threads i).Obeys (P i) (t i) (Q i)) ∧
      ∀ i, (P i).Follows (s i) (proj i (exec h is c).1) (t i) := by
  induction is generalizing c s with
  | nil => exact ⟨s, hinv, hthreads, fun i => rfl⟩
  | cons j is ih =>
    rw [exec]
    dsimp only
    unfold step
    split
    · exact ih hinv hthreads
    · rename_i op k hj
      have hthread := hthreads j
      rw [hj] at hthread
      obtain ⟨hallows, hk⟩ := hthread
      obtain ⟨u, hnext, hinv'⟩ := hstep s c.shared j op hinv hallows
      have hthreads' : ∀ i, (update c.threads j (k (h op c.shared).1) i).Obeys (P i)
          (update s j u i) (Q i) := by
        intro i
        by_cases hij : i = j
        · subst hij
          rw [update_self, update_self]
          exact hk _ u hnext
        · rw [update_of_ne hij, update_of_ne hij]
          exact hthreads i
      obtain ⟨t, hinvt, hobeys, hfollows⟩ := ih (c := ⟨update c.threads j (k (h op c.shared).1),
        (h op c.shared).2⟩) hinv' hthreads'
      refine ⟨t, hinvt, hobeys, fun i => ?_⟩
      rw [proj_append]
      refine Protocol.follows_append.mpr ⟨update s j u i, ?_, hfollows i⟩
      by_cases hij : i = j
      · subst hij
        rw [proj_cons_self, update_self]
        exact ⟨hallows, u, hnext, rfl⟩
      · rw [proj_cons_ne (Ne.symm hij), update_of_ne hij]
        rfl

end Interaction
