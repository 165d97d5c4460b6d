import AdbncFs.Writes.OneHandle

/-!
# Several handles on one path

Writes, flushes and releases of one path through any number of handles, in any order. The
mark for writing belongs to the path, and the release of one handle clears it for all, so a
flush pushes exactly when a write comes directly before it. `handlesKeep_iff` says for which
orders each handle finds its writes pushed when its flush returns.
-/

namespace AdbncFs

open Text Interaction

namespace Callback

/-- A write, flush or release of `p`. -/
def SharesPath (p : Str) : Callback → Prop
  | write q _ _ _ | flush q _ | release q _ => q = p
  | _ => False

/-- The handle that a write, flush or release goes through. -/
def handle : Callback → Option Int
  | write _ _ _ pFi | flush _ pFi | release _ pFi => some pFi.fh
  | _ => none

end Callback

open Callback

/-- When a flush of a handle has returned, each write made through that handle was pushed
by this flush or by one between the two. -/
def HandlesKeep (l p : Str) (H : CallHistory) : Prop :=
  ∀ pre d mid e post, H = pre ++ d :: (mid ++ e :: post) → d.1.IsWrite → e.1.IsFlush →
    e.1.handle = d.1.handle → ∃ f ∈ mid ++ [e], f.1.IsFlush ∧ (l, p) ∈ f.2.pushes

/-- From a write to a flush through the same handle, some flush comes directly after some
write. -/
def FlushAfterWrite (calls : List Callback) : Prop :=
  ∀ pre d mid e post, calls = pre ++ d :: (mid ++ e :: post) → d.IsWrite → e.IsFlush →
    e.handle = d.handle →
    ∃ a v f b, d :: (mid ++ [e]) = a ++ v :: f :: b ∧ v.IsWrite ∧ f.IsFlush

/-- No handle in `unflushed`, and none that is written, is released before it is flushed. -/
def FlushedBeforeRelease (unflushed : List Int) : List Callback → Prop
  | [] => True
  | .write _ _ _ pFi :: cs => FlushedBeforeRelease (pFi.fh :: unflushed) cs
  | .flush _ pFi :: cs => FlushedBeforeRelease (unflushed.filter (· ≠ pFi.fh)) cs
  | .release _ pFi :: cs => pFi.fh ∉ unflushed ∧ FlushedBeforeRelease unflushed cs
  | _ :: cs => FlushedBeforeRelease unflushed cs

section

variable {ε : Type} (env : Env ε) (g : Globals) {p : Str}

/-- The local `fsync` succeeds, or says that the handle is closed. -/
def FlushSucceeds : Prop := ∀ pFi e, FlushOk env pFi e

/-- The entry after a call on the path: not that of a renamed file, and dirty if the call
is a write. -/
theorem entry_after {env : Env ε} (henv : FlushSucceeds env) {c : Callback}
    (hc : c.SharesPath p) {w : World ε}
    (hw : (w.fileStatus.entry p).m_strRenamedFromLocal = []) :
    let e := (c.step env g w).2.fileStatus.entry p
    e.m_strRenamedFromLocal = [] ∧ ((e.m_fPendingOpen ∧ e.m_fForWrite) ↔ c.IsWrite) := by
  intro e
  cases c with
  | write q data off f =>
    obtain rfl := hc
    have he : e = _ := congrArg (·.entry q) (write_step env g q data off f w).2
    rw [he, FileStatus.entry_setPendingOpen, if_pos rfl]
    exact ⟨hw, iff_of_true ⟨rfl, rfl⟩ trivial⟩
  | flush q f =>
    obtain rfl := hc
    have he : e = _ := (flush_step env g (henv f w.env)).2.2 q
    rw [he, if_pos rfl, FileStatus.Entry.afterFlush_pendingOpen]
    exact ⟨FileStatus.Entry.afterFlush_not_renamed hw,
      iff_of_false (fun h => Bool.noConfusion h.1) id⟩
  | release q f =>
    obtain rfl := hc
    have he : e = _ := (release_step env g q f w).2 q
    rw [he, if_pos rfl]
    exact ⟨hw, iff_of_false (fun h => Bool.noConfusion h.1) id⟩
  | _ => exact hc.elim

/-- A flush pushes if and only if the call before it is a write. -/
theorem flush_pushes_iff {env : Env ε} (henv : FlushSucceeds env) {c d : Callback}
    (hc : c.SharesPath p) (hd : d.SharesPath p) (hflush : d.IsFlush) {w : World ε}
    (hw : (w.fileStatus.entry p).m_strRenamedFromLocal = []) :
    (g.localPath p, p) ∈ (d.step env g (c.step env g w).2).1.pushes ↔ c.IsWrite := by
  obtain ⟨hren, hdirty⟩ := entry_after g henv hc hw
  cases d with
  | flush q f =>
    obtain rfl := hd
    rw [(flush_step env g (henv f _)).1, flushed_of_not_renamed hren, ← hdirty]
    split
    · rename_i h
      exact iff_of_true (List.mem_singleton_self _) h
    · rename_i h
      exact iff_of_false (fun hmem => by cases hmem) h
  | _ => exact hflush.elim

/-- Some flush in a row of calls pushes if and only if some flush in it comes directly
after a write. -/
theorem exists_push_iff {env : Env ε} (henv : FlushSucceeds env) {c : Callback}
    {rest : List Callback} (hon : ∀ d ∈ c :: rest, d.SharesPath p) {w : World ε}
    (hw : (w.fileStatus.entry p).m_strRenamedFromLocal = []) :
    (∃ f ∈ outcomes (Callback.step env g) rest (c.step env g w).2,
        f.1.IsFlush ∧ (g.localPath p, p) ∈ f.2.pushes) ↔
      ∃ a v f b, c :: rest = a ++ v :: f :: b ∧ v.IsWrite ∧ f.IsFlush := by
  induction rest generalizing c w with
  | nil =>
    refine iff_of_false (fun ⟨f, hf, _⟩ => by cases hf) ?_
    rintro ⟨a, v, f, b, h, -⟩
    have := congrArg List.length h
    simp at this
    omega
  | cons d rest ih =>
    have hc := hon c (by simp)
    have hd := hon d (by simp)
    have ih := ih (fun x hx => hon x (List.mem_cons_of_mem _ hx)) (entry_after g henv hc hw).1
    constructor
    · rintro ⟨f, hf, hflush, hpush⟩
      rcases List.mem_cons.mp hf with rfl | hf
      · exact ⟨[], c, d, rest, rfl, (flush_pushes_iff g henv hc hd hflush hw).mp hpush, hflush⟩
      · obtain ⟨a, v, f, b, h, hvf⟩ := ih.mp ⟨f, hf, hflush, hpush⟩
        exact ⟨c :: a, v, f, b, congrArg (c :: ·) h, hvf⟩
    · rintro ⟨a, v, f, b, h, hv, hf⟩
      cases a with
      | nil =>
        obtain ⟨rfl, hrest⟩ := List.cons.inj h
        obtain ⟨rfl, -⟩ := List.cons.inj hrest
        exact ⟨_, List.mem_cons_self, hf, (flush_pushes_iff g henv hc hd hf hw).mpr hv⟩
      | cons x a =>
        obtain ⟨f', hf', h'⟩ := ih.mpr ⟨a, v, f, b, (List.cons.inj h).2, hv, hf⟩
        exact ⟨f', List.mem_cons_of_mem _ hf', h'⟩

theorem final_not_renamed {env : Env ε} (henv : FlushSucceeds env) {cs : List Callback}
    (hon : ∀ c ∈ cs, c.SharesPath p) {w : World ε}
    (hw : (w.fileStatus.entry p).m_strRenamedFromLocal = []) :
    ((final (Callback.step env g) cs w).fileStatus.entry p).m_strRenamedFromLocal = [] :=
  final_induct (I := fun w : World ε => (w.fileStatus.entry p).m_strRenamedFromLocal = []) hw
    fun cs₁ c cs₂ h hI => (entry_after g henv (hon c (by simp [h])) hI).1

/-- Each handle finds its writes pushed if and only if between a write and a flush of a
handle some flush comes directly after a write. -/
theorem handlesKeep_iff {env : Env ε} (henv : FlushSucceeds env) {cs : List Callback}
    (hon : ∀ c ∈ cs, c.SharesPath p) {w : World ε}
    (hw : (w.fileStatus.entry p).m_strRenamedFromLocal = []) :
    HandlesKeep (g.localPath p) p (outcomes (Callback.step env g) cs w) ↔ FlushAfterWrite cs := by
  constructor
  · rintro h pre d mid e post rfl hd he hh
    have hblock := exists_push_iff g henv (w := final (Callback.step env g) pre w)
      (fun x (hx : x ∈ d :: (mid ++ [e])) => hon x (by simp at hx; simp; tauto))
      (final_not_renamed g henv (fun x hx => hon x (by simp [hx])) hw)
    refine hblock.mp ?_
    rw [outcomes_concat]
    exact h _ _ _ _ _ (outcomes_append_append pre mid post d e w) hd he hh
  · intro h pre d mid e post hH hd he hh
    obtain ⟨pre', rest, rfl, rfl, hd', hrest⟩ := outcomes_eq_append.mp hH
    obtain ⟨mid', post', rfl, rfl, he', -⟩ := outcomes_eq_append.mp hrest.symm
    have hblock := exists_push_iff g henv (w := final (Callback.step env g) pre' w)
      (fun x (hx : x ∈ d.1 :: (mid' ++ [e.1])) => hon x (by simp at hx; simp; tauto))
      (final_not_renamed g henv (fun x hx => hon x (by simp [hx])) hw)
    rw [outcomes_concat, ← he'] at hblock
    exact hblock.mpr (h pre' d.1 mid' e.1 post' rfl hd he hh)

end

theorem handlesKeep_oneHandle :
    HandlesKeep (exampleGlobals.localPath ['/', 'a']) ['/', 'a']
        (outcomes (Callback.step Env.obliging exampleGlobals)
          [.write ['/', 'a'] ['x'] 0 ⟨5, 2⟩, .flush ['/', 'a'] ⟨5, 2⟩] World.start) ↔
      FlushAfterWrite [.write ['/', 'a'] ['x'] 0 ⟨5, 2⟩, .flush ['/', 'a'] ⟨5, 2⟩] :=
  handlesKeep_iff exampleGlobals (fun _ _ => obliging_fsync.flushOk _ _) (by simp [SharesPath]) rfl

/-- A write through handle 6 between the flush and the release of handle 5: the flush of
handle 6 then pushes nothing. -/
def releaseRun : List Callback :=
  [.write ['/', 'a'] ['x'] 0 ⟨5, 2⟩, .flush ['/', 'a'] ⟨5, 2⟩, .write ['/', 'a'] ['y'] 0 ⟨6, 2⟩,
    .release ['/', 'a'] ⟨5, 2⟩, .flush ['/', 'a'] ⟨6, 2⟩]

theorem release_discards :
    FlushSucceeds Env.obliging ∧ (∀ c ∈ releaseRun, c.SharesPath ['/', 'a']) ∧
      FlushedBeforeRelease [] releaseRun ∧
      ¬ HandlesKeep (exampleGlobals.localPath ['/', 'a']) ['/', 'a']
        (outcomes (Callback.step Env.obliging exampleGlobals) releaseRun World.start) := by
  refine ⟨fun _ _ => obliging_fsync.flushOk _ _, by simp [releaseRun, SharesPath], ?_, fun h => ?_⟩
  · simp [releaseRun, FlushedBeforeRelease]
  · obtain ⟨f, hf, -, hmem⟩ := h
      (outcomes (Callback.step Env.obliging exampleGlobals) (releaseRun.take 2) World.start)
      (.write ['/', 'a'] ['y'] 0 ⟨6, 2⟩, ⟨1, []⟩) [(.release ['/', 'a'] ⟨5, 2⟩, ⟨-EBADF, []⟩)]
      (.flush ['/', 'a'] ⟨6, 2⟩, ⟨0, []⟩) [] (by decide +kernel) trivial trivial rfl
    have hnil : f.2.pushes = [] := by
      rcases List.mem_cons.mp hf with rfl | hf
      · rfl
      · rw [List.mem_singleton.mp hf]
    rw [hnil] at hmem
    cases hmem

end AdbncFs
