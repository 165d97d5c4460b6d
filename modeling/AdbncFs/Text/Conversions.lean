import AdbncFs.Text.Number

/-!
# Conversions of tokens, one after the other

A `try` block that converts one token after the other and stores each number ends at the first
conversion that throws. `readIndices` are the places of the vector that it has looked at by
then: nothing else of the vector counts for what the block does.
-/

namespace Text

/-- The conversion of the token at one place, and what is done with its value. -/
structure Conversion (σ : Type) where
  index : Nat
  convert : Str → Except Exception (σ → σ)

variable {σ : Type}

namespace Conversion

/-- The token at `i` is read by `parse`, and its value is stored. -/
def storing {α : Type} (i : Nat) (parse : Str → Except Exception α) (store : α → σ → σ) :
    Conversion σ :=
  ⟨i, fun s => (parse s).map store⟩

/-- The conversion does not throw. -/
def Succeeds (c : Conversion σ) (tokens : List Str) : Prop :=
  ∃ f, c.convert (tokens.getD c.index []) = .ok f

theorem storing_succeeds {α : Type} {i : Nat} {parse : Str → Except Exception α}
    {store : α → σ → σ} {tokens : List Str} :
    (storing i parse store).Succeeds tokens ↔ ∃ n, parse (tokens.getD i []) = .ok n := by
  show (∃ f, (parse (tokens.getD i [])).map store = .ok f) ↔ _
  cases parse (tokens.getD i []) <;> simp [Except.map]

end Conversion

def runConversions :
    List (Conversion σ) → List Str → ExceptT Exception (StateM σ) Unit
  | [], _ => pure ()
  | c :: cs, tokens => do
    let store ← c.convert (tokens.getD c.index [])
    modify store
    runConversions cs tokens

theorem runConversions_storing {α : Type} (i : Nat) (parse : Str → Except Exception α)
    (store : α → σ → σ) (cs : List (Conversion σ)) (tokens : List Str) :
    runConversions (.storing i parse store :: cs) tokens = (do
      let n ← parse (tokens.getD i [])
      modify (store n)
      runConversions cs tokens) := by
  show ((parse (tokens.getD i [])).map store : ExceptT Exception (StateM σ) (σ → σ)) >>= _ = _
  cases parse (tokens.getD i []) <;> rfl

/-- The places that are read, in order. -/
def readIndices : List (Conversion σ) → List Str → List Nat
  | [], _ => []
  | c :: cs, tokens =>
    match c.convert (tokens.getD c.index []) with
    | .ok _ => c.index :: readIndices cs tokens
    | .error _ => [c.index]

variable {c : Conversion σ} {cs : List (Conversion σ)} {tokens : List Str}

theorem readIndices_of_succeeds (h : c.Succeeds tokens) :
    readIndices (c :: cs) tokens = c.index :: readIndices cs tokens := by
  obtain ⟨f, hf⟩ := h
  rw [readIndices, hf]

theorem readIndices_of_throws (h : ¬ c.Succeeds tokens) :
    readIndices (c :: cs) tokens = [c.index] := by
  cases hc : c.convert (tokens.getD c.index []) with
  | ok f => exact absurd ⟨f, hc⟩ h
  | error e => rw [readIndices, hc]

/-- The first token is always read. -/
theorem index_mem_readIndices (c : Conversion σ) (cs : List (Conversion σ)) (tokens : List Str) :
    c.index ∈ readIndices (c :: cs) tokens := by
  by_cases h : c.Succeeds tokens
  · rw [readIndices_of_succeeds h]
    exact List.mem_cons_self
  · rw [readIndices_of_throws h]
    exact List.mem_singleton_self _

theorem exists_of_mem_readIndices {i : Nat} (h : i ∈ readIndices cs tokens) :
    ∃ c ∈ cs, c.index = i := by
  induction cs with
  | nil => cases h
  | cons c cs ih =>
    by_cases hc : c.Succeeds tokens
    · rw [readIndices_of_succeeds hc, List.mem_cons] at h
      rcases h with rfl | h
      · exact ⟨c, List.mem_cons_self, rfl⟩
      · obtain ⟨d, hd, hi⟩ := ih h
        exact ⟨d, List.mem_cons_of_mem _ hd, hi⟩
    · rw [readIndices_of_throws hc, List.mem_singleton] at h
      exact ⟨c, List.mem_cons_self, h.symm⟩

theorem readIndices_lt {i n : Nat} (hall : ∀ c ∈ cs, c.index < n)
    (h : i ∈ readIndices cs tokens) : i < n := by
  obtain ⟨c, hc, rfl⟩ := exists_of_mem_readIndices h
  exact hall c hc

/-- Where the first place out of range is that of `c`, everything read is in range if and only
if a conversion before `c` throws. -/
theorem readIndices_lt_iff {n : Nat} {front rest : List (Conversion σ)}
    (hfront : ∀ d ∈ front, d.index < n) (hc : n ≤ c.index) :
    (∀ i ∈ readIndices (front ++ c :: rest) tokens, i < n) ↔
      ∃ d ∈ front, ¬ d.Succeeds tokens := by
  induction front with
  | nil =>
    refine ⟨fun h => ?_, fun ⟨d, hd, _⟩ => absurd hd List.not_mem_nil⟩
    exact absurd (h _ (index_mem_readIndices c rest tokens)) (Nat.not_lt.mpr hc)
  | cons d front ih =>
    have ih := ih fun e he => hfront e (List.mem_cons_of_mem _ he)
    have hd := hfront d List.mem_cons_self
    by_cases hsucc : d.Succeeds tokens
    · rw [List.cons_append, readIndices_of_succeeds hsucc, List.forall_mem_cons, ih]
      simp [hd, hsucc]
    · rw [List.cons_append, readIndices_of_throws hsucc]
      simp [hd, hsucc]

/-- What the block does depends on the tokens that it reads only. -/
theorem runConversions_congr {tokens' : List Str}
    (h : ∀ i ∈ readIndices cs tokens, tokens'.getD i [] = tokens.getD i []) :
    runConversions cs tokens' = runConversions cs tokens := by
  induction cs with
  | nil => rfl
  | cons c cs ih =>
    have hfirst := h _ (index_mem_readIndices c cs tokens)
    rw [runConversions, runConversions, hfirst]
    by_cases hc : c.Succeeds tokens
    · rw [readIndices_of_succeeds hc] at h
      rw [ih fun i hi => h i (List.mem_cons_of_mem _ hi)]
    · cases hconv : c.convert (tokens.getD c.index []) with
      | ok f => exact absurd ⟨f, hconv⟩ hc
      | error e => rfl

/-- What lies behind the vector does not count while the block stays in range. -/
theorem runConversions_append (more : List Str)
    (h : ∀ i ∈ readIndices cs tokens, i < tokens.length) :
    runConversions cs (tokens ++ more) = runConversions cs tokens :=
  runConversions_congr fun i hi => by
    rw [List.getD_eq_getElem?_getD, List.getD_eq_getElem?_getD, List.getElem?_append_left (h i hi)]

end Text
