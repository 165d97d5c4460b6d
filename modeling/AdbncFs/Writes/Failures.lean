import AdbncFs.Writes.Answers
import AdbncFs.Writes.OneHandle

/-!
# Pushes that fail

A run of writes, fsyncs and flushes of one path, any push of which may fail. A flush and an
fsync clear the marks whatever the push answers, so the next one finds nothing to push and
returns 0. `covered_iff` says in which runs a result 0 still means that all writes are on the
device; `push_failures_iff` adds that no failed push leaves the file marked.
-/

namespace AdbncFs

open Text Interaction

namespace Callback

/-- The calls that write, flush or synchronize `p`, through any handle. -/
def Saves (p : Str) : Callback → Prop
  | write q _ _ _ | flush q _ | fsync q _ => q = p
  | _ => False

/-- The local `fsync` lets the call go on to `FileStatus`. -/
def GoesOn {ε : Type} (env : Env ε) (w : World ε) : Callback → Prop
  | flush _ pFi => FlushOk env pFi w.env
  | fsync _ pFi => SyncOk env pFi w.env
  | _ => False

end Callback

open Callback

/-- A push of `l` to `p` that fails. -/
def Observed.PushFails (l p : Str) (o : Observed) : Prop :=
  ∃ answer : Int, answer ≠ 0 ∧ ((l, p), answer) ∈ o.pushed

/-- A write with no successful push of `p` after it. -/
def WriteUncovered (l p : Str) (T : CallTrace) : Prop :=
  Since (fun e => e.1.IsWrite) (fun f => ¬ f.2.PushSucceeds l p) T

/-- Wherever a flush or an fsync returns 0, every write before it is covered by a push. -/
def Covered (l p : Str) (T : CallTrace) : Prop :=
  ∀ pre e post, T = pre ++ e :: post → e.1.IsFlush ∨ e.1.IsFsync → e.2.result = 0 →
    ¬ WriteUncovered l p (pre ++ [e])

/-- A push failed, and nothing was written since. -/
def FailedLast (l p : Str) (T : CallTrace) : Prop :=
  Since (fun e => e.2.PushFails l p) (fun f => ¬ f.1.IsWrite) T

section

variable {ε : Type} (env : Env ε) (g : Globals) (p : Str)

def Pending (w : World ε) : Prop := (w.fileStatus.entry p).m_fPendingOpen = true

def PendingForWrite (w : World ε) : Prop :=
  Pending p w ∧ (w.fileStatus.entry p).m_fForWrite = true

/-- A push that fails leaves the file pending for write. -/
def FailureKeepsPending (cs : List Callback) (w : World ε) : Prop :=
  ∀ pre c post, cs = pre ++ c :: post →
    (c.observe env g (final (Callback.step env g) pre w)).1.PushFails (g.localPath p) p →
      PendingForWrite p (c.step env g (final (Callback.step env g) pre w)).2

/-- A push fails in the run. -/
def SomePushFails (cs : List Callback) (w : World ε) : Prop :=
  ∃ pre c post, cs = pre ++ c :: post ∧
    (c.observe env g (final (Callback.step env g) pre w)).1.PushFails (g.localPath p) p

/-- After a write and a push that failed, a flush or an fsync goes on although nothing was
written since the failure. -/
def Forgotten (cs : List Callback) (w : World ε) : Prop :=
  ∃ pre c post, cs = pre ++ c :: post ∧ c.GoesOn env (final (Callback.step env g) pre w) ∧
    (∃ d ∈ pre, d.IsWrite) ∧
      FailedLast (g.localPath p) p (outcomes (Callback.observe env g) pre w)

/-- A local `fsync` that fails sets `errno`. -/
def SetsErrno : Prop :=
  ∀ fd e errno, (env.syscall (.fsync fd) e).1 = .error errno → errno ≠ 0

variable {env g p}

/-! ## One call -/

/-- Where a file was not renamed, a flush asks for at most the push of its local copy, and for
this one if the file is marked for writing. -/
theorem flushed_cases {e : FileStatus.Entry} (hw : e.m_strRenamedFromLocal = []) (l p : Str) :
    (e.flushed l p = [] ∨ e.flushed l p = [(l, p)] ∧ e.m_fPendingOpen = true) ∧
      (e.m_fPendingOpen = true ∧ e.m_fForWrite = true → e.flushed l p = [(l, p)]) := by
  rw [flushed_of_not_renamed hw]
  refine ⟨?_, fun hp => if_pos hp⟩
  split
  · rename_i hp
    exact Or.inr ⟨rfl, hp.1⟩
  · exact Or.inl rfl

/-- An fsync asks for the push of a file that is pending, marked for writing or not. -/
theorem synced_cases (e : FileStatus.Entry) (l p : Str) :
    (e.synced l p = [] ∨ e.synced l p = [(l, p)] ∧ e.m_fPendingOpen = true) ∧
      (e.m_fPendingOpen = true ∧ e.m_fForWrite = true → e.synced l p = [(l, p)]) := by
  unfold FileStatus.Entry.synced
  refine ⟨?_, fun hp => if_pos hp.1⟩
  split
  · rename_i hp
    exact Or.inr ⟨rfl, hp⟩
  · exact Or.inl rfl

/-- What a call does to the marks of `p`, and what it pushes. -/
theorem saves_cases (herrno : SetsErrno env) {c : Callback} (hc : c.Saves p) {w : World ε}
    (hw : (w.fileStatus.entry p).m_strRenamedFromLocal = []) :
    let o := (c.observe env g w).1
    let w' := (c.step env g w).2
    (w'.fileStatus.entry p).m_strRenamedFromLocal = [] ∧
      (c.IsWrite ∧ o.pushed = [] ∧ PendingForWrite p w' ∨
      ¬ c.IsWrite ∧ ¬ c.GoesOn env w ∧ o.pushed = [] ∧ o.result ≠ 0 ∧
        w'.fileStatus = w.fileStatus ∨
      ¬ c.IsWrite ∧ c.GoesOn env w ∧ ¬ Pending p w' ∧
        ∃ asked, AnswersPush asked o.pushed o.result ∧
          (asked = [] ∨ asked = [(g.localPath p, p)] ∧ Pending p w) ∧
          (PendingForWrite p w → asked = [(g.localPath p, p)])) := by
  dsimp only
  cases c with
  | write q data off f =>
    obtain rfl : q = p := hc
    have hentry : ((Callback.write q data off f).step env g w).2.fileStatus.entry q =
        (w.fileStatus.entry q).setPendingOpen true true := by
      rw [(write_step env g q data off f w).2, FileStatus.entry_setPendingOpen, if_pos rfl]
    unfold PendingForWrite Pending
    rw [hentry]
    exact ⟨hw, Or.inl ⟨trivial, pushed_nil g env id w, rfl, rfl⟩⟩
  | flush q f =>
    obtain rfl : q = p := hc
    by_cases h : FlushOk env f w.env
    · have hentry := (flush_step env g (p := q) h).2.2 q
      rw [if_pos rfl] at hentry
      have hnot : ¬ Pending q ((Callback.flush q f).step env g w).2 := by
        rw [Pending, hentry, FileStatus.Entry.afterFlush_pendingOpen]
        exact Bool.false_ne_true
      refine ⟨?_, Or.inr (Or.inr ⟨id, h, hnot, _, flush_answers g h, flushed_cases hw _ _⟩)⟩
      rw [hentry]
      exact FileStatus.Entry.afterFlush_not_renamed hw
    · obtain ⟨hpushed, hstatus, errno, herr, hres⟩ := flush_blocked g (p := q) h
      refine ⟨by rw [hstatus]; exact hw, Or.inr (Or.inl ⟨id, h, hpushed, ?_, hstatus⟩)⟩
      have hne := herrno _ _ _ herr
      rw [observe_result, hres]
      omega
  | fsync q f =>
    obtain rfl : q = p := hc
    by_cases h : SyncOk env f w.env
    · have hentry := (fsync_step env g (p := q) h).2 q
      rw [if_pos rfl] at hentry
      have hnot : ¬ Pending q ((Callback.fsync q f).step env g w).2 := by
        rw [Pending, hentry, FileStatus.Entry.afterSync_pendingOpen]
        exact Bool.false_ne_true
      refine ⟨?_, Or.inr (Or.inr ⟨id, h, hnot, _, fsync_answers g h, synced_cases _ _ _⟩)⟩
      rw [hentry, FileStatus.Entry.afterSync_renamed]
      exact hw
    · obtain ⟨hpushed, hstatus, errno, herr, hres⟩ := fsync_blocked g (p := q) h
      refine ⟨by rw [hstatus]; exact hw, Or.inr (Or.inl ⟨id, h, hpushed, ?_, hstatus⟩)⟩
      have hne := herrno _ _ _ herr
      rw [observe_result, hres]
      omega
  | _ => exact hc.elim

/-- The one push that is asked for succeeds or fails by its answer. -/
theorem answersPush_cases {l p : Str} {o : Observed} {result : Int}
    (h : AnswersPush [(l, p)] o.pushed result) :
    (o.PushSucceeds l p ↔ result = 0) ∧ (o.PushFails l p ↔ result ≠ 0) := by
  obtain ⟨answer, hpushed, hres⟩ := h
  rw [if_neg (List.cons_ne_nil _ _)] at hres
  subst hres
  unfold Observed.PushSucceeds Observed.PushFails
  rw [hpushed]
  simp [eq_comm]

theorem not_succeeds_of_nil {l p : Str} {o : Observed} (h : o.pushed = []) :
    ¬ o.PushSucceeds l p := by
  unfold Observed.PushSucceeds
  rw [h]
  exact List.not_mem_nil

theorem not_fails_of_nil {l p : Str} {o : Observed} (h : o.pushed = []) : ¬ o.PushFails l p := by
  rintro ⟨answer, -, hmem⟩
  rw [h] at hmem
  cases hmem

theorem answersPush_asked_nil {o : Observed} {result : Int} (h : AnswersPush [] o.pushed result) :
    o.pushed = [] ∧ result = 0 := by
  obtain ⟨answer, hpushed, hres⟩ := h
  exact ⟨hpushed, hres⟩

/-! ## Runs -/

theorem outcomes_observe_concat (cs : List Callback) (c : Callback) (w : World ε) :
    outcomes (Callback.observe env g) (cs ++ [c]) w =
      outcomes (Callback.observe env g) cs w ++
        [(c, (c.observe env g (final (Callback.step env g) cs w)).1)] := by
  rw [outcomes_append, final_observe]
  rfl

theorem final_concat (cs : List Callback) (c : Callback) (w : World ε) :
    final (Callback.step env g) (cs ++ [c]) w =
      (c.step env g (final (Callback.step env g) cs w)).2 := by
  rw [final_append]
  rfl

theorem uncovered_concat {l p : Str} {T : CallTrace} {e : Callback × Observed}
    (he : ¬ e.1.IsWrite) :
    WriteUncovered l p (T ++ [e]) ↔ WriteUncovered l p T ∧ ¬ e.2.PushSucceeds l p :=
  since_concat.trans (or_iff_right he)

theorem Covered.at {l p : Str} {c : Callback} {w : World ε} (pre post : List Callback)
    (h : Covered l p (outcomes (Callback.observe env g) (pre ++ c :: post) w))
    (hc : c.IsFlush ∨ c.IsFsync)
    (hres : (c.observe env g (final (Callback.step env g) pre w)).1.result = 0) :
    ¬ WriteUncovered l p (outcomes (Callback.observe env g) (pre ++ [c]) w) := by
  rw [outcomes_observe_concat]
  refine h _ (c, (c.observe env g (final (Callback.step env g) pre w)).1) _
    (outcomes_eq_append.mpr ⟨pre, post, rfl, rfl, ?_, rfl⟩) hc hres
  rw [final_observe]

theorem saves_not_renamed (herrno : SetsErrno env) {cs : List Callback} {w : World ε}
    (hcs : ∀ c ∈ cs, c.Saves p) (hw : (w.fileStatus.entry p).m_strRenamedFromLocal = []) :
    ((final (Callback.step env g) cs w).fileStatus.entry p).m_strRenamedFromLocal = [] := by
  refine final_induct (I := fun s : World ε => (s.fileStatus.entry p).m_strRenamedFromLocal = [])
    hw fun pre c post h hs => ?_
  exact (saves_cases herrno (hcs c (by simp [h])) hs).1

/-- A file that is pending after some write has a write that is not covered. -/
theorem uncovered_of_pending (herrno : SetsErrno env) {cs : List Callback} {w : World ε}
    (hcs : ∀ c ∈ cs, c.Saves p) (hw : (w.fileStatus.entry p).m_strRenamedFromLocal = [])
    (hwrite : ∃ d ∈ cs, d.IsWrite) (hpend : Pending p (final (Callback.step env g) cs w)) :
    WriteUncovered (g.localPath p) p (outcomes (Callback.observe env g) cs w) := by
  induction cs using List.reverseRecOn with
  | nil => obtain ⟨d, hd, -⟩ := hwrite; cases hd
  | append_singleton cs c ih =>
    have hcs' : ∀ d ∈ cs, d.Saves p := fun d hd => hcs d (List.mem_append_left _ hd)
    have hren := saves_not_renamed (g := g) herrno hcs' hw
    rw [final_concat] at hpend
    rw [outcomes_observe_concat]
    rcases (saves_cases (g := g) herrno (hcs c (by simp)) hren).2 with
      ⟨hcw, -⟩ | ⟨hcw, -, hpushed, -, hstatus⟩ | ⟨-, -, hnot, -⟩
    · exact since_concat.mpr (Or.inl hcw)
    · rw [Pending, hstatus] at hpend
      have hwrite' : ∃ d ∈ cs, d.IsWrite := by
        obtain ⟨d, hd, hdw⟩ := hwrite
        rcases List.mem_append.mp hd with hd | hd
        · exact ⟨d, hd, hdw⟩
        · rw [List.mem_singleton.mp hd] at hdw
          exact absurd hdw hcw
      exact (uncovered_concat hcw).mpr ⟨ih hcs' hwrite' hpend, not_succeeds_of_nil hpushed⟩
    · exact absurd hpend hnot

/-- A write that is not covered is still marked, or its push has failed and nothing was
written since. -/
theorem failedLast_of_uncovered (herrno : SetsErrno env) {cs : List Callback} {w : World ε}
    (hcs : ∀ c ∈ cs, c.Saves p) (hw : (w.fileStatus.entry p).m_strRenamedFromLocal = [])
    (hun : WriteUncovered (g.localPath p) p (outcomes (Callback.observe env g) cs w)) :
    PendingForWrite p (final (Callback.step env g) cs w) ∨
      FailedLast (g.localPath p) p (outcomes (Callback.observe env g) cs w) := by
  induction cs using List.reverseRecOn with
  | nil => exact absurd hun not_since_nil
  | append_singleton cs c ih =>
    have hcs' : ∀ d ∈ cs, d.Saves p := fun d hd => hcs d (List.mem_append_left _ hd)
    have hren := saves_not_renamed (g := g) herrno hcs' hw
    rw [final_concat]
    rw [outcomes_observe_concat] at hun ⊢
    rcases (saves_cases (g := g) herrno (hcs c (by simp)) hren).2 with
      ⟨-, -, hdirty⟩ | ⟨hcw, -, -, -, hstatus⟩ | ⟨hcw, -, -, asked, hanswers, -, hasked⟩
    · exact Or.inl hdirty
    · obtain ⟨hun', -⟩ := (uncovered_concat hcw).mp hun
      rcases ih hcs' hun' with hdirty | hfailed
      · refine Or.inl ?_
        unfold PendingForWrite Pending
        rw [hstatus]
        exact hdirty
      · exact Or.inr (since_concat.mpr (Or.inr ⟨hfailed, hcw⟩))
    · obtain ⟨hun', hnot⟩ := (uncovered_concat hcw).mp hun
      rcases ih hcs' hun' with hdirty | hfailed
      · rw [hasked hdirty] at hanswers
        obtain ⟨hsucc, hfail⟩ := answersPush_cases hanswers
        have hne := fun h => hnot (hsucc.mpr h)
        exact Or.inr (since_concat.mpr (Or.inl (hfail.mpr hne)))
      · exact Or.inr (since_concat.mpr (Or.inr ⟨hfailed, hcw⟩))

/-- After a push that failed, with nothing written since, a write is not covered and nothing
is pending. -/
theorem uncovered_of_failedLast (herrno : SetsErrno env) {cs : List Callback} {w : World ε}
    (hcs : ∀ c ∈ cs, c.Saves p) (hw : (w.fileStatus.entry p).m_strRenamedFromLocal = [])
    (hwrite : ∃ d ∈ cs, d.IsWrite)
    (hfailed : FailedLast (g.localPath p) p (outcomes (Callback.observe env g) cs w)) :
    WriteUncovered (g.localPath p) p (outcomes (Callback.observe env g) cs w) ∧
      ¬ Pending p (final (Callback.step env g) cs w) := by
  induction cs using List.reverseRecOn with
  | nil => exact absurd hfailed not_since_nil
  | append_singleton cs c ih =>
    have hcs' : ∀ d ∈ cs, d.Saves p := fun d hd => hcs d (List.mem_append_left _ hd)
    have hren := saves_not_renamed (g := g) herrno hcs' hw
    have hwrite' : ¬ c.IsWrite → ∃ d ∈ cs, d.IsWrite := by
      intro hcw
      obtain ⟨d, hd, hdw⟩ := hwrite
      rcases List.mem_append.mp hd with hd | hd
      · exact ⟨d, hd, hdw⟩
      · rw [List.mem_singleton.mp hd] at hdw
        exact absurd hdw hcw
    rw [outcomes_observe_concat] at hfailed ⊢
    rw [final_concat]
    rcases since_concat.mp hfailed with hfails | ⟨hfailed', hcw⟩
    · -- the push that failed is the last call's
      rcases (saves_cases (g := g) herrno (hcs c (by simp)) hren).2 with
        ⟨-, hpushed, -⟩ | ⟨-, -, hpushed, -⟩ | ⟨hcw, -, hnot, asked, hanswers, hasked, -⟩
      · exact absurd hfails (not_fails_of_nil hpushed)
      · exact absurd hfails (not_fails_of_nil hpushed)
      · rcases hasked with rfl | ⟨rfl, hpend⟩
        · exact absurd hfails (not_fails_of_nil (answersPush_asked_nil hanswers).1)
        · obtain ⟨hsucc, hfail⟩ := answersPush_cases hanswers
          have hun := uncovered_of_pending herrno hcs' hw (hwrite' hcw) hpend
          exact ⟨(uncovered_concat hcw).mpr ⟨hun, fun h => hfail.mp hfails (hsucc.mp h)⟩, hnot⟩
    · obtain ⟨hun, hnot⟩ := ih hcs' (hwrite' hcw) hfailed'
      rcases (saves_cases (g := g) herrno (hcs c (by simp)) hren).2 with
        ⟨hcw', -⟩ | ⟨-, -, hpushed, -, hstatus⟩ | ⟨-, -, hnot', asked, hanswers, hasked, -⟩
      · exact absurd hcw' hcw
      · refine ⟨(uncovered_concat hcw).mpr ⟨hun, not_succeeds_of_nil hpushed⟩, ?_⟩
        rw [Pending, hstatus]
        exact hnot
      · rcases hasked with rfl | ⟨-, hpend⟩
        · have hpushed := (answersPush_asked_nil hanswers).1
          exact ⟨(uncovered_concat hcw).mpr ⟨hun, not_succeeds_of_nil hpushed⟩, hnot'⟩
        · exact absurd hpend hnot

/-- A result 0 means that all writes are pushed, exactly in the runs in which no failure is
forgotten. -/
theorem covered_iff (herrno : SetsErrno env) {cs : List Callback} {w : World ε}
    (hcs : ∀ c ∈ cs, c.Saves p) (hw : (w.fileStatus.entry p).m_strRenamedFromLocal = []) :
    Covered (g.localPath p) p (outcomes (Callback.observe env g) cs w) ↔
      ¬ Forgotten env g p cs w := by
  constructor
  · rintro hcov ⟨pre, c, post, rfl, hgoes, hwrite, hfailed⟩
    have hpre : ∀ d ∈ pre, d.Saves p := fun d hd => hcs d (List.mem_append_left _ hd)
    have hren := saves_not_renamed (g := g) herrno hpre hw
    obtain ⟨hun, hnot⟩ := uncovered_of_failedLast herrno hpre hw hwrite hfailed
    rcases (saves_cases (g := g) herrno (hcs c (by simp)) hren).2 with
      ⟨hcw, -⟩ | ⟨-, hstop, -⟩ | ⟨hcw, -, -, asked, hanswers, hasked, -⟩
    · cases c with
      | write => exact hgoes
      | _ => exact hcw
    · exact hstop hgoes
    · rcases hasked with rfl | ⟨-, hpend⟩
      · obtain ⟨hpushed, hres⟩ := answersPush_asked_nil hanswers
        have hsync : c.IsFlush ∨ c.IsFsync := by
          cases c with
          | flush => exact Or.inl trivial
          | fsync => exact Or.inr trivial
          | _ => exact hgoes.elim
        refine Covered.at pre post hcov hsync hres ?_
        rw [outcomes_observe_concat]
        exact (uncovered_concat hcw).mpr ⟨hun, not_succeeds_of_nil hpushed⟩
      · exact hnot hpend
  · intro hforgot pre e post h hsync hres hun
    obtain ⟨cs₁, cs₂, rfl, rfl, ho, -⟩ := outcomes_eq_append.mp h
    rw [final_observe] at ho
    obtain ⟨c, o⟩ := e
    dsimp only at ho hsync hres hun
    subst ho
    have hpre : ∀ d ∈ cs₁, d.Saves p := fun d hd => hcs d (List.mem_append_left _ hd)
    have hren := saves_not_renamed (g := g) herrno hpre hw
    rcases (saves_cases (g := g) herrno (hcs c (by simp)) hren).2 with
      ⟨hcw, -⟩ | ⟨-, -, -, hne, -⟩ | ⟨hcw, hgoes, -, asked, hanswers, -, hasked⟩
    · cases c with
      | write => exact hsync.elim id id
      | _ => exact hcw
    · exact hne hres
    · obtain ⟨hun', hnot⟩ := (uncovered_concat hcw).mp hun
      have hwrite : ∃ d ∈ cs₁, d.IsWrite := by
        obtain ⟨e, he, hew⟩ := hun'.exists_mem
        exact ⟨e.1, (mem_outcomes he).1, hew⟩
      rcases failedLast_of_uncovered herrno hpre hw hun' with hdirty | hfailed
      · rw [hasked hdirty] at hanswers
        exact hnot ((answersPush_cases hanswers).1.mpr hres)
      · exact hforgot ⟨cs₁, c, cs₂, rfl, hgoes, hwrite, hfailed⟩

/-- No failed push leaves the file marked. -/
theorem failureKeepsPending_iff (herrno : SetsErrno env) {cs : List Callback} {w : World ε}
    (hcs : ∀ c ∈ cs, c.Saves p) (hw : (w.fileStatus.entry p).m_strRenamedFromLocal = []) :
    FailureKeepsPending env g p cs w ↔ ¬ SomePushFails env g p cs w := by
  constructor
  · rintro hkeeps ⟨pre, c, post, rfl, hfails⟩
    have hpre : ∀ d ∈ pre, d.Saves p := fun d hd => hcs d (List.mem_append_left _ hd)
    have hren := saves_not_renamed (g := g) herrno hpre hw
    have hdirty := hkeeps pre c post rfl hfails
    rcases (saves_cases (g := g) herrno (hcs c (by simp)) hren).2 with
      ⟨-, hpushed, -⟩ | ⟨-, -, hpushed, -⟩ | ⟨-, -, hnot, -⟩
    · exact not_fails_of_nil hpushed hfails
    · exact not_fails_of_nil hpushed hfails
    · exact hnot hdirty.1
  · intro hnone pre c post h hfails
    exact absurd ⟨pre, c, post, h, hfails⟩ hnone

theorem somePushFails_of_forgotten {cs : List Callback} {w : World ε}
    (h : Forgotten env g p cs w) : SomePushFails env g p cs w := by
  obtain ⟨pre, c, post, rfl, -, -, T₁, e, T₂, hT, hfails, -⟩ := h
  obtain ⟨cs₁, cs₂, rfl, -, ho, -⟩ := outcomes_eq_append.mp hT
  rw [final_observe] at ho
  exact ⟨cs₁, e.1, cs₂ ++ c :: post, by simp, ho ▸ hfails⟩

/-- Both promises of a successful fsync are kept exactly in the runs in which no push fails;
the first one is kept exactly where no failure is forgotten. -/
theorem push_failures_iff (herrno : SetsErrno env) {cs : List Callback} {w : World ε}
    (hcs : ∀ c ∈ cs, c.Saves p) (hw : (w.fileStatus.entry p).m_strRenamedFromLocal = []) :
    (Covered (g.localPath p) p (outcomes (Callback.observe env g) cs w) ∧
        FailureKeepsPending env g p cs w ↔ ¬ SomePushFails env g p cs w) ∧
      (Covered (g.localPath p) p (outcomes (Callback.observe env g) cs w) ↔
        ¬ Forgotten env g p cs w) := by
  have hcov := covered_iff (g := g) herrno hcs hw
  refine ⟨?_, hcov⟩
  rw [hcov, failureKeepsPending_iff herrno hcs hw]
  constructor
  · exact fun h => h.2
  · exact fun h => ⟨fun hforgot => h (somePushFails_of_forgotten hforgot), h⟩

end

/-! ## A push that fails once -/

/-- The host of `Env.obliging`, but adb cannot be started at first. -/
def Env.flaky : Env Bool where
  time b := (0, b)
  shell c b := ((Env.obliging.shell c ()).1, b)
  spawn _ _ b := if b then (some ([], 0), b) else (none, true)
  syscall call b := ((Env.obliging.syscall call ()).1, b)

theorem flaky_setsErrno : SetsErrno Env.flaky := by
  intro fd e errno h
  cases h

def World.flakyStart : World Bool := ⟨FileCache.empty, FileStatus.empty, false⟩

/-- A write and two flushes. -/
def flushTwice : List Callback :=
  [.write ['/', 'a'] ['x'] 0 ⟨5, 2⟩, .flush ['/', 'a'] ⟨5, 2⟩, .flush ['/', 'a'] ⟨5, 2⟩]

theorem flushTwice_saves : ∀ c ∈ flushTwice, c.Saves ['/', 'a'] := by
  intro c hc
  simp only [flushTwice, List.mem_cons, List.not_mem_nil, or_false] at hc
  rcases hc with rfl | rfl | rfl <;> rfl

theorem push_failures_flaky :
    (Covered (exampleGlobals.localPath ['/', 'a']) ['/', 'a']
          (outcomes (Callback.observe Env.flaky exampleGlobals) flushTwice World.flakyStart) ∧
        FailureKeepsPending Env.flaky exampleGlobals ['/', 'a'] flushTwice World.flakyStart ↔
        ¬ SomePushFails Env.flaky exampleGlobals ['/', 'a'] flushTwice World.flakyStart) ∧
      (Covered (exampleGlobals.localPath ['/', 'a']) ['/', 'a']
          (outcomes (Callback.observe Env.flaky exampleGlobals) flushTwice World.flakyStart) ↔
        ¬ Forgotten Env.flaky exampleGlobals ['/', 'a'] flushTwice World.flakyStart) :=
  push_failures_iff flaky_setsErrno flushTwice_saves rfl

/-- The push of the first flush fails, and the second flush returns 0 without a push. -/
theorem failed_push_forgotten :
    ¬ Covered (exampleGlobals.localPath ['/', 'a']) ['/', 'a']
        (outcomes (Callback.observe Env.flaky exampleGlobals) flushTwice World.flakyStart) ∧
      ¬ FailureKeepsPending Env.flaky exampleGlobals ['/', 'a'] flushTwice World.flakyStart := by
  have hfirst : ¬ ((Callback.flush ['/', 'a'] ⟨5, 2⟩).observe Env.flaky exampleGlobals
      (final (Callback.observe Env.flaky exampleGlobals) [.write ['/', 'a'] ['x'] 0 ⟨5, 2⟩]
        World.flakyStart)).1.PushSucceeds (exampleGlobals.localPath ['/', 'a']) ['/', 'a'] := by
    unfold Observed.PushSucceeds
    decide +kernel
  have hsecond : ((Callback.flush ['/', 'a'] ⟨5, 2⟩).observe Env.flaky exampleGlobals
      (final (Callback.observe Env.flaky exampleGlobals)
        [.write ['/', 'a'] ['x'] 0 ⟨5, 2⟩, .flush ['/', 'a'] ⟨5, 2⟩]
          World.flakyStart)).1.pushed = [] := by
    decide +kernel
  constructor
  · intro hcov
    refine Covered.at [.write ['/', 'a'] ['x'] 0 ⟨5, 2⟩, .flush ['/', 'a'] ⟨5, 2⟩] [] hcov
      (Or.inl trivial) (by decide +kernel) ⟨[], _, [_, _], rfl, trivial, fun f hf => ?_⟩
    rcases List.mem_cons.mp hf with rfl | hf
    · exact hfirst
    · rw [List.mem_singleton.mp hf]
      exact not_succeeds_of_nil hsecond
  · intro hkeeps
    have hmarked := hkeeps [.write ['/', 'a'] ['x'] 0 ⟨5, 2⟩] (.flush ['/', 'a'] ⟨5, 2⟩)
      [.flush ['/', 'a'] ⟨5, 2⟩] rfl ⟨- EIO, by decide, by decide +kernel⟩
    exact absurd hmarked.1 (by unfold Pending; decide +kernel)

end AdbncFs
