import AdbncFs.Text.Str

/-!
# Words of a shell command line

`Shell.words` splits a command line into words by the quoting rules of the POSIX shell
(and of bash where POSIX leaves a case open). It answers only for one simple command all of
whose words are fixed by the quoting rules alone: an unquoted operator or line feed, an
expansion that is not quoted, and an unended quote all give `none`.

`words_single` and `words_double` are the two rules for quoted words. For the converse
every mode of the reader gets a potential, and no step lets the size of the words read plus
the potential grow by more than the character it reads (`lex_le`): a quote character that
is read as a quote is lost for good.
-/

namespace Text.Shell

/-- Where the reader stands: outside quotes (`cur` is the word begun, if any), right after
a backslash, between quotes of either kind, or in a comment. -/
inductive Mode
  | unquoted (cur : Option Str)
  | escape (cur : Option Str)
  | single (w : Str)
  | double (w : Str)
  | doubleEscape (w : Str)
  | comment
  deriving DecidableEq

/-- Characters that end the simple command or start another one. -/
def operators : Str := ['\n', '|', '&', ';', '<', '>', '(', ')']

/-- Characters that start a command substitution, a pathname or a brace expansion when
they are not quoted. -/
def expanding : Str := ['\x60', '*', '?', '[', '{']

/-- A dollar sign before this character starts an expansion, also between double quotes. -/
def startsExpansion (c : Char) : Bool :=
  c.isAlphanum || c ∈ ['_', '{', '(', '[', '@', '*', '#', '?', '-', '$', '!']

/-- A backslash before this character is an escape between double quotes. -/
def escapable (c : Char) : Bool := c ∈ ['$', '\x60', '"', '\\', '\n']

/-- One character, with the one after it: the word it ends, if any, and the next mode. -/
def step : Mode → Char → Option Char → Option (Option Str × Mode)
  | .unquoted cur, c, next =>
    if c = ' ' ∨ c = '\t' then some (cur, .unquoted none)
    else if c = '\'' then some (none, .single (cur.getD []))
    else if c = '"' then some (none, .double (cur.getD []))
    else if c = '\\' then some (none, .escape cur)
    else if cur = none ∧ c = '#' then some (none, .comment)
    else if c ∈ operators ∨ c ∈ expanding ∨ (cur = none ∧ c = '~') then none
    else if c = '$' ∧ next.any (fun d => startsExpansion d || d = '\'' || d = '"') then none
    else some (none, .unquoted (some (cur.getD [] ++ [c])))
  | .escape cur, c, _ =>
    -- a backslash before a line feed joins two lines
    if c = '\n' then some (none, .unquoted cur)
    else some (none, .unquoted (some (cur.getD [] ++ [c])))
  | .single w, c, _ =>
    if c = '\'' then some (none, .unquoted (some w)) else some (none, .single (w ++ [c]))
  | .double w, c, next =>
    if c = '"' then some (none, .unquoted (some w))
    else if c = '\x60' ∨ (c = '$' ∧ next.any startsExpansion) then none
    else if c = '\\' ∧ next.any escapable then some (none, .doubleEscape w)
    else some (none, .double (w ++ [c]))
  | .doubleEscape w, c, _ =>
    if c = '\n' then some (none, .double w) else some (none, .double (w ++ [c]))
  | .comment, c, _ => if c = '\n' then none else some (none, .comment)

/-- Read the rest of the line in mode `m`: the words that end in it. -/
def lex : Mode → Str → Option (List Str)
  | .unquoted cur, [] => some cur.toList
  | .comment, [] => some []
  | _, [] => none
  | m, c :: s => (step m c s.head?).bind fun p => (lex p.2 s).map (p.1.toList ++ ·)

/-- The words of a command line. -/
def words (line : Str) : Option (List Str) := lex (.unquoted none) line

/-! ## Reading plain and quoted words -/

/-- Characters that stand for themselves outside quotes. -/
def plain (c : Char) : Bool :=
  c ∉ operators && c ∉ expanding && c ∉ [' ', '\t', '\'', '"', '\\', '#', '~', '$']

theorem lex_cons {m n : Mode} {c : Char} {s : Str} {o : Option Str}
    (h : step m c s.head? = some (o, n)) :
    lex m (c :: s) = (lex n s).map (o.toList ++ ·) := by
  cases m <;> simp [lex, h]

/-- A character that ends no word. -/
theorem lex_cons_none {m n : Mode} {c : Char} {s : Str}
    (h : step m c s.head? = some (none, n)) : lex m (c :: s) = lex n s := by
  rw [lex_cons h]
  simp

theorem lex_cons_fail {m : Mode} {c : Char} {s : Str} (h : step m c s.head? = none) :
    lex m (c :: s) = none := by
  cases m <;> simp [lex, h]

theorem step_plain {cur : Option Str} {c : Char} {next : Option Char} (h : plain c = true) :
    step (.unquoted cur) c next = some (none, .unquoted (some (cur.getD [] ++ [c]))) := by
  simp only [plain, Bool.and_eq_true, decide_eq_true_eq, List.mem_cons, List.not_mem_nil, or_false,
    not_or] at h
  simp [step, h]

theorem lex_plain {w s v : Str} (h : w.all plain = true) :
    lex (.unquoted (some v)) (w ++ s) = lex (.unquoted (some (v ++ w))) s := by
  induction w generalizing v with
  | nil => simp
  | cons c w ih =>
    rw [List.all_cons, Bool.and_eq_true] at h
    rw [List.cons_append, lex_cons_none (step_plain h.1), ih h.2]
    simp

/-- A plain word before a blank. -/
theorem lex_word {w : Str} (s : Str) (hw : w ≠ []) (h : w.all plain = true) :
    lex (.unquoted none) (w ++ ' ' :: s) = (lex (.unquoted none) s).map (w :: ·) := by
  cases w with
  | nil => exact absurd rfl hw
  | cons c w =>
    rw [List.all_cons, Bool.and_eq_true] at h
    rw [List.cons_append, lex_cons_none (step_plain h.1), lex_plain h.2]
    exact lex_cons (o := some (c :: w)) (by simp [step])

/-- Up to the closing quote single quotes keep everything. -/
theorem lex_single {w p s : Str} (h : '\'' ∉ p) :
    lex (.single w) (p ++ '\'' :: s) = lex (.unquoted (some (w ++ p))) s := by
  induction p generalizing w with
  | nil =>
    rw [List.append_nil]
    exact lex_cons_none (by simp only [step, if_true])
  | cons c p ih =>
    rw [List.mem_cons, not_or] at h
    rw [List.cons_append, lex_cons_none (n := .single (w ++ [c])) (by simp [step, Ne.symm h.1]),
      ih h.2]
    simp

/-- Text that double quotes keep: no quote, no expansion, no escape. The closing quote
comes after its last character. -/
def doubleSafe : Str → Bool
  | [] => true
  | c :: s =>
    c ≠ '"' && c ≠ '\x60' && !(c = '$' && (s ++ ['"']).head?.any startsExpansion) &&
      !(c = '\\' && (s ++ ['"']).head?.any escapable) && doubleSafe s

theorem head?_append_quote (p s : Str) : (p ++ '"' :: s).head? = (p ++ ['"']).head? := by
  cases p <;> rfl

theorem step_double_safe {w : Str} {c : Char} {p s : Str} (h : doubleSafe (c :: p) = true) :
    step (.double w) c (p ++ '"' :: s).head? = some (none, .double (w ++ [c])) := by
  simp only [doubleSafe, Bool.and_eq_true, decide_eq_true_eq, Bool.not_eq_true',
    Bool.and_eq_false_imp] at h
  obtain ⟨⟨⟨⟨h1, h2⟩, h3⟩, h4⟩, -⟩ := h
  rw [head?_append_quote]
  have hd : ¬ (c = '\x60' ∨ c = '$' ∧ (p ++ ['"']).head?.any startsExpansion = true) := by
    rintro (h | ⟨h, h'⟩)
    · exact h2 h
    · rw [h3 h] at h'
      cases h'
  have hb : ¬ (c = '\\' ∧ (p ++ ['"']).head?.any escapable = true) := by
    rintro ⟨h, h'⟩
    rw [h4 h] at h'
    cases h'
  simp only [step, if_neg h1, if_neg hd, if_neg hb]

/-- Up to the closing quote double quotes keep safe text. -/
theorem lex_double {w p s : Str} (h : doubleSafe p = true) :
    lex (.double w) (p ++ '"' :: s) = lex (.unquoted (some (w ++ p))) s := by
  induction p generalizing w with
  | nil =>
    rw [List.append_nil]
    exact lex_cons_none (by simp only [step, if_true])
  | cons c p ih =>
    have hp : doubleSafe p = true := by
      rw [doubleSafe, Bool.and_eq_true] at h
      exact h.2
    rw [List.cons_append, lex_cons_none (step_double_safe h), ih hp]
    simp

/-! ## What quoting loses -/

/-- The room that words take: their characters and one more for each word. -/
def size (ws : List Str) : Nat := (ws.map fun w => w.length + 1).sum

theorem size_append (ws vs : List Str) : size (ws ++ vs) = size ws + size vs := by
  simp [size]

/-- The potential of a mode: the size of the word begun, plus an amount for the kind of
the mode. -/
def potential (u e s d : Nat) : Mode → Nat
  | .unquoted cur => (cur.getD []).length + 1 + u
  | .escape cur => (cur.getD []).length + 1 + e
  | .single w => w.length + 1 + s
  | .double w => w.length + 1 + d
  | .doubleEscape w => w.length + 1 + d
  | .comment => 1 + u

/-- No step gains more than the character it reads, when the amounts differ by at most one
along the changes of mode. -/
theorem step_le {u e s d : Nat} (he : e ≤ u + 1) (hu : u ≤ e) (hs : s ≤ u + 1) (hs' : u ≤ s + 1)
    (hd : d ≤ u + 1) (hd' : u ≤ d + 1) {m m' : Mode} {c : Char} {next : Option Char}
    {out : Option Str} (h : step m c next = some (out, m')) :
    size out.toList + potential u e s d m' ≤ potential u e s d m + 1 := by
  cases m with
  | unquoted cur =>
    simp only [step] at h
    split_ifs at h <;> cases h
    · cases out <;> simp [size, potential]
      omega
    all_goals simp [size, potential]
    all_goals omega
  | escape cur =>
    simp only [step] at h
    split_ifs at h <;> cases h
    all_goals simp [size, potential]
    all_goals omega
  | single w =>
    simp only [step] at h
    split_ifs at h <;> cases h
    all_goals simp [size, potential]
    all_goals omega
  | double w =>
    simp only [step] at h
    split_ifs at h <;> cases h
    all_goals simp [size, potential]
    all_goals omega
  | doubleEscape w =>
    simp only [step] at h
    split_ifs at h <;> cases h
    all_goals simp [size, potential]
    all_goals omega
  | comment =>
    simp only [step] at h
    split_ifs at h
    cases h
    simp [size]

/-- A bound on the words of a line from a bound on those of its end. -/
theorem lex_le {P : Mode → Nat} {k : Nat} {s : Str}
    (hstep : ∀ {m m' c next out}, step m c next = some (out, m') →
      size out.toList + P m' ≤ P m + 1)
    (hend : ∀ {m ws}, lex m s = some ws → size ws + k ≤ P m + s.length) (t : Str)
    {m : Mode} {ws : List Str} (h : lex m (t ++ s) = some ws) :
    size ws + k ≤ P m + t.length + s.length := by
  induction t generalizing m ws with
  | nil => simpa using hend h
  | cons c t ih =>
    cases hst : step m c (t ++ s).head? with
    | none =>
      rw [List.cons_append, lex_cons_fail hst] at h
      cases h
    | some p =>
      obtain ⟨out, m'⟩ := p
      rw [List.cons_append, lex_cons hst, Option.map_eq_some_iff] at h
      obtain ⟨vs, hvs, rfl⟩ := h
      have h1 := hstep hst
      have h2 := ih hvs
      rw [size_append, List.length_cons]
      omega

/-- A line that ends with a quote of either kind: the quote is lost, or the backslash
before it. -/
theorem lex_quote_le {q : Char} (hq : q = '\'' ∨ q = '"') (t : Str) {m : Mode} {ws : List Str}
    (h : lex m (t ++ [q]) = some ws) : size ws ≤ potential 0 1 0 0 m + t.length := by
  have := lex_le (P := potential 0 1 0 0) (k := 1) (s := [q])
    (step_le (by omega) (by omega) (by omega) (by omega) (by omega) (by omega)) ?_ t h
  · simp only [List.length_singleton] at this
    omega
  · intro m ws h
    rcases hq with rfl | rfl <;> cases m <;> simp [lex, step] at h <;>
      (subst h; simp [size, potential])

/-- Between double quotes a single quote at the end is text: another quote has to end
them before. -/
theorem lex_single_end_le (t : Str) {m : Mode} {ws : List Str}
    (h : lex m (t ++ ['\'']) = some ws) : size ws + 1 ≤ potential 1 2 1 0 m + t.length := by
  have := lex_le (P := potential 1 2 1 0) (k := 2) (s := ['\''])
    (step_le (by omega) (by omega) (by omega) (by omega) (by omega) (by omega)) ?_ t h
  · simp only [List.length_singleton] at this
    omega
  · intro m ws h
    cases m <;> simp [lex, step] at h <;> (subst h; simp [size, potential])

/-- The end of a line with two words between single quotes. -/
theorem lex_pair_le (t q : Str) {m : Mode} {ws : List Str}
    (h : lex m (t ++ '\'' :: ' ' :: '\'' :: (q ++ ['\''])) = some ws) :
    size ws ≤ potential 0 1 0 1 m + t.length + q.length + 1 := by
  have := lex_le (P := potential 0 1 0 1) (k := 3) (s := '\'' :: ' ' :: '\'' :: (q ++ ['\'']))
    (step_le (by omega) (by omega) (by omega) (by omega) (by omega) (by omega)) ?_ t h
  · simp only [List.length_cons, List.length_append, List.length_nil] at this
    omega
  · intro m ws h
    simp only [List.length_cons, List.length_append, List.length_nil]
    cases m with
    | unquoted cur =>
      -- the blank between the two quotes is quoted
      simp [lex, step] at h
      have := lex_quote_le (Or.inl rfl) q h
      simp [potential] at this ⊢
      omega
    | escape cur =>
      simp [lex, step] at h
      obtain ⟨vs, hvs, rfl⟩ := h
      have := lex_quote_le (Or.inl rfl) q hvs
      simp [potential, size] at this ⊢
      omega
    | single w =>
      simp [lex, step] at h
      obtain ⟨vs, hvs, rfl⟩ := h
      have := lex_quote_le (Or.inl rfl) q hvs
      simp [potential, size] at this ⊢
      omega
    | double w =>
      simp [lex, step] at h
      have := lex_single_end_le q h
      simp [potential] at this ⊢
      omega
    | doubleEscape w =>
      simp [lex, step] at h
      have := lex_single_end_le q h
      simp [potential] at this ⊢
      omega
    | comment =>
      simp [lex, step] at h
      have := lex_quote_le (Or.inl rfl) q h
      simp [potential] at this ⊢
      omega

/-! ## The exact rules -/

/-- Single quotes around `p` give the word `p` exactly when `p` has no single quote. -/
theorem lex_single_iff {p : Str} :
    lex (.single []) (p ++ ['\'']) = some [p] ↔ '\'' ∉ p := by
  constructor
  · intro h hmem
    obtain ⟨p₁, p₂, rfl, hp⟩ := List.eq_append_cons_of_mem hmem
    rw [List.append_assoc, List.cons_append, lex_single hp] at h
    have := lex_quote_le (Or.inl rfl) p₂ h
    simp [size, potential] at this
    omega
  · intro h
    rw [lex_single h]
    rfl

/-- Two words between single quotes. -/
theorem lex_pair_iff {p q : Str} :
    lex (.single []) (p ++ '\'' :: ' ' :: '\'' :: (q ++ ['\''])) = some [p, q] ↔
      '\'' ∉ p ∧ '\'' ∉ q := by
  by_cases hp : '\'' ∈ p
  · refine ⟨fun h => ?_, fun h => absurd hp h.1⟩
    obtain ⟨p₁, p₂, rfl, hp₁⟩ := List.eq_append_cons_of_mem hp
    rw [List.append_assoc, List.cons_append, lex_single hp₁] at h
    have := lex_pair_le p₂ q h
    simp [size, potential] at this
    omega
  · have hstep : lex (.single []) (p ++ '\'' :: ' ' :: '\'' :: (q ++ ['\''])) =
        (lex (.single []) (q ++ ['\''])).map (p :: ·) := by
      rw [lex_single hp, lex_cons (o := some p) (n := .unquoted none) (by simp [step]),
        lex_cons_none (n := .single []) (by simp [step])]
      rfl
    rw [hstep, ← lex_single_iff (p := q), Option.map_eq_some_iff]
    simp [hp]

/-- Double quotes around `p` give the word `p` exactly when `p` is safe between them. -/
theorem lex_double_iff {w p : Str} :
    lex (.double w) (p ++ ['"']) = some [w ++ p] ↔ doubleSafe p = true := by
  constructor
  · intro h
    induction p generalizing w with
    | nil => rfl
    | cons c p ih =>
      rw [List.cons_append] at h
      by_cases hquote : c = '"'
      · rw [lex_cons_none (n := .unquoted (some w)) (by simp [step, hquote])] at h
        have := lex_quote_le (Or.inr rfl) p h
        simp [size, potential] at this
        omega
      by_cases hexpand : c = '\x60' ∨ c = '$' ∧ (p ++ ['"']).head?.any startsExpansion
      · rw [lex_cons_fail (by simp only [step, if_neg hquote, if_pos hexpand])] at h
        cases h
      by_cases hescape : c = '\\' ∧ (p ++ ['"']).head?.any escapable
      · rw [lex_cons_none (n := .doubleEscape w)
          (by simp only [step, if_neg hquote, if_neg hexpand, if_pos hescape])] at h
        have := lex_quote_le (Or.inr rfl) p h
        simp [size, potential] at this
        omega
      rw [lex_cons_none (n := .double (w ++ [c]))
        (by simp only [step, if_neg hquote, if_neg hexpand, if_neg hescape])] at h
      have hp := ih (w := w ++ [c]) (by simpa using h)
      rw [not_or] at hexpand
      simp [doubleSafe, hquote, hexpand.1, hp]
      exact ⟨imp_iff_not_or.mp (by simpa using hexpand.2),
        imp_iff_not_or.mp (by simpa using hescape)⟩
  · intro h
    rw [lex_double h]
    rfl

end Text.Shell
