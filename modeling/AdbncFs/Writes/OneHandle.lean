import AdbncFs.Writes.Effects

/-!
# Writes through one handle

A run of reads, writes, fsyncs and flushes of one path. `noLostWrite_iff` says when every
flush and fsync pushes what was written: exactly when no flush comes right after a read
that has a write before it since the last flush or fsync. A read clears the mark that a
write has set, although nothing has been pushed.
-/

namespace AdbncFs

open Text Interaction

namespace Callback

def IsWrite : Callback → Prop
  | write .. => True
  | _ => False

def IsRead : Callback → Prop
  | read .. => True
  | _ => False

def IsFlush : Callback → Prop
  | flush .. => True
  | _ => False

def IsFsync : Callback → Prop
  | fsync .. => True
  | _ => False

/-- The calls that read, write or flush `p` through the handle `pFi`. -/
def OnHandle (p : Str) (pFi : FileInfo) : Callback → Prop
  | read q _ _ f | write q _ _ f | flush q f | fsync q f => q = p ∧ f = pFi
  | _ => False

end Callback

open Callback

/-- `p` was written, and no push of `p` was asked for after that. -/
def WriteUnpushed (p : Str) (H : CallHistory) : Prop :=
  ∃ pre e post, H = pre ++ e :: post ∧ e.1.IsWrite ∧ ∀ f ∈ post, ∀ push ∈ f.2.pushes, push.2 ≠ p

/-- Each flush and fsync that succeeds while a write is not pushed pushes `l` to `p`. -/
def NoLostWrite (l p : Str) (H : CallHistory) : Prop :=
  ∀ pre e post, H = pre ++ e :: post → e.1.IsFlush ∨ e.1.IsFsync → e.2.result = 0 →
    WriteUnpushed p pre → (l, p) ∈ e.2.pushes

/-- A flush comes right after a read, and only reads and writes lie between a write and
that read. -/
def ReadHidesWrite (calls : List Callback) : Prop :=
  ∃ pre w mid r f post, calls = pre ++ w :: mid ++ r :: f :: post ∧ w.IsWrite ∧
    (∀ c ∈ mid, c.IsRead ∨ c.IsWrite) ∧ r.IsRead ∧ f.IsFlush

theorem writeUnpushed_concat {p : Str} {H : CallHistory} {e : Callback × Outcome}
    (he : ¬ e.1.IsWrite) :
    WriteUnpushed p (H ++ [e]) ↔ WriteUnpushed p H ∧ ∀ push ∈ e.2.pushes, push.2 ≠ p :=
  since_concat.trans (or_iff_right he)

section

variable {ε : Type} (env : Env ε) (g : Globals) {p : Str} {pFi : FileInfo}

/-- The local `fsync` succeeds. -/
def FsyncSucceeds : Prop := ∀ fd e, ∃ v, (env.syscall (.fsync fd) e).1 = .ok v

theorem FsyncSucceeds.flushOk {env : Env ε} (h : FsyncSucceeds env) (pFi : FileInfo) (e : ε) :
    FlushOk env pFi e := by
  obtain ⟨v, hv⟩ := h pFi.fh e
  rw [FlushOk, hv]
  trivial

/-- The entry for `p` after some calls. -/
def entryAfter (p : Str) (cs : List Callback) (w : World ε) : FileStatus.Entry :=
  (final (Callback.step env g) cs w).fileStatus.entry p

theorem entryAfter_concat (cs : List Callback) (c : Callback) (w : World ε) :
    entryAfter env g p (cs ++ [c]) w =
      (c.step env g (final (Callback.step env g) cs w)).2.fileStatus.entry p := by
  rw [entryAfter, final_append]
  rfl

theorem outcomes_concat (cs : List Callback) (c : Callback) (w : World ε) :
    outcomes (Callback.step env g) (cs ++ [c]) w = outcomes (Callback.step env g) cs w ++
      [(c, (c.step env g (final (Callback.step env g) cs w)).1)] := by
  rw [outcomes_append]
  rfl

variable {env g}

variable (env g) in
/-- Only reads and writes since some write: the file is pending, and it is marked for
writing if the last of them is a write. -/
theorem entryAfter_block (w : World ε) {pre mid : List Callback} {d : Callback}
    (hon : ∀ c ∈ pre ++ d :: mid, c.OnHandle p pFi) (hd : d.IsWrite)
    (hmid : ∀ c ∈ mid, c.IsRead ∨ c.IsWrite) :
    (entryAfter env g p (pre ++ d :: mid) w).m_fPendingOpen = true ∧
      ((entryAfter env g p (pre ++ d :: mid) w).m_fForWrite = true ↔
        ∀ mid' r, mid = mid' ++ [r] → ¬ r.IsRead) := by
  have hwrite : ∀ (cs : List Callback) (c : Callback), c.OnHandle p pFi → c.IsWrite →
      (entryAfter env g p (cs ++ [c]) w).m_fPendingOpen = true ∧
        (entryAfter env g p (cs ++ [c]) w).m_fForWrite = true := by
    intro cs c hc hw
    cases c with
    | write q data off f =>
      obtain ⟨rfl, rfl⟩ := hc
      rw [entryAfter_concat, (write_step env g _ _ _ _ _).2]
      simp [FileStatus.Entry.setPendingOpen]
    | _ => exact hw.elim
  rcases List.eq_nil_or_concat mid with rfl | ⟨mid', c, rfl⟩
  · obtain ⟨h1, h2⟩ := hwrite pre d (hon d (by simp)) hd
    exact ⟨h1, by simp [h2]⟩
  · rw [List.concat_eq_append, ← List.cons_append, ← List.append_assoc] at hon ⊢
    rw [List.concat_eq_append] at hmid
    have hc := hon c (by simp)
    rcases hmid c (by simp) with hr | hw
    · cases c with
      | read q n off f =>
        obtain ⟨rfl, rfl⟩ := hc
        rw [entryAfter_concat, (read_step env g _ _ _ _ _).2]
        refine ⟨by simp [FileStatus.Entry.setPendingOpen], ?_⟩
        constructor
        · intro h
          simp [FileStatus.Entry.setPendingOpen] at h
        · intro h
          exact absurd hr (h mid' _ rfl)
      | _ => exact hr.elim
    · obtain ⟨h1, h2⟩ := hwrite (pre ++ d :: mid') c hc hw
      refine ⟨h1, by
        simp only [h2, true_iff]
        intro m r h hr
        obtain ⟨-, h⟩ := List.append_inj' h rfl
        cases h
        cases c with
        | write => exact hr.elim
        | _ => exact hw.elim⟩

theorem flushed_of_not_renamed {e : FileStatus.Entry} (h : e.m_strRenamedFromLocal = [])
    (l p : Str) :
    e.flushed l p = if e.m_fPendingOpen ∧ e.m_fForWrite then [(l, p)] else [] := by
  rw [FileStatus.Entry.flushed, h]
  rfl

/-- No call through a handle makes the entry one of a renamed file. -/
theorem entryAfter_not_renamed (hsync : FsyncSucceeds env) {w : World ε} {cs : List Callback}
    (hw : (w.fileStatus.entry p).m_strRenamedFromLocal = [])
    (hon : ∀ c ∈ cs, c.OnHandle p pFi) :
    (entryAfter env g p cs w).m_strRenamedFromLocal = [] := by
  induction cs using List.reverseRecOn with
  | nil => exact hw
  | append_singleton cs c ih =>
    have hcs := ih fun d hd => hon d (List.mem_append_left _ hd)
    have hc := hon c (by simp)
    rw [entryAfter_concat]
    cases c with
    | read q n off f =>
      obtain ⟨rfl, rfl⟩ := hc
      rw [(read_step env g _ _ _ _ _).2]
      rw [FileStatus.entry_setPendingOpen, if_pos rfl]
      exact hcs
    | write q data off f =>
      obtain ⟨rfl, rfl⟩ := hc
      rw [(write_step env g _ _ _ _ _).2]
      rw [FileStatus.entry_setPendingOpen, if_pos rfl]
      exact hcs
    | flush q f =>
      obtain ⟨rfl, rfl⟩ := hc
      rw [(flush_step env g (hsync.flushOk _ _)).2.2, if_pos rfl]
      exact FileStatus.Entry.afterFlush_not_renamed hcs
    | fsync q f =>
      obtain ⟨rfl, rfl⟩ := hc
      rw [(fsync_step env g (hsync _ _)).2, if_pos rfl, FileStatus.Entry.afterSync_renamed]
      exact hcs
    | _ => exact hc.elim

/-- After a write with only reads and writes since then, an fsync pushes. A flush pushes
unless the last of them is a read. -/
theorem pushes_of_block (hsync : FsyncSucceeds env) {w : World ε} {pre mid : List Callback}
    {d : Callback} (hw : (w.fileStatus.entry p).m_strRenamedFromLocal = [])
    (hon : ∀ c ∈ pre ++ d :: mid, c.OnHandle p pFi) (hd : d.IsWrite)
    (hmid : ∀ c ∈ mid, c.IsRead ∨ c.IsWrite) :
    let s := final (Callback.step env g) (pre ++ d :: mid) w
    ((Callback.fsync p pFi).step env g s).1.pushes = [(g.localPath p, p)] ∧
      ((∀ mid' r, mid = mid' ++ [r] → ¬ r.IsRead) →
        ((Callback.flush p pFi).step env g s).1.pushes = [(g.localPath p, p)]) ∧
      ∀ mid' r, mid = mid' ++ [r] → r.IsRead →
        ((Callback.flush p pFi).step env g s).1.pushes = [] ∧
          ((Callback.flush p pFi).step env g s).1.result = 0 := by
  obtain ⟨hpend, hfor⟩ := entryAfter_block env g w hon hd hmid
  have hren := entryAfter_not_renamed (g := g) hsync hw hon
  have hflushed := flushed_of_not_renamed hren (g.localPath p) p
  obtain ⟨hpush, hres, -⟩ := flush_step env g (p := p)
    (hsync.flushOk pFi (final (Callback.step env g) (pre ++ d :: mid) w).env)
  refine ⟨(fsync_step env g (hsync _ _)).1.trans (if_pos hpend), fun hlast => ?_, ?_⟩
  · exact hpush.trans (hflushed.trans (if_pos ⟨hpend, hfor.mpr hlast⟩))
  · intro mid' r hmid' hr
    have hnil := hflushed.trans (if_neg fun hc => hfor.mp hc.2 mid' r hmid' hr)
    exact ⟨hpush.trans hnil, hres hnil⟩

theorem writeUnpushed_of_block {w : World ε} (pre : List Callback) {mid : List Callback}
    {d : Callback} (hd : d.IsWrite) (hmid : ∀ c ∈ mid, c.IsRead ∨ c.IsWrite) :
    WriteUnpushed p (outcomes (Callback.step env g) (pre ++ d :: mid) w) := by
  refine ⟨_, _, _, outcomes_append pre (d :: mid) w, hd, fun e he push hpush => ?_⟩
  obtain ⟨hc, s', ho⟩ := mem_outcomes he
  have hnil : e.2.pushes = [] := by
    obtain ⟨c, o⟩ := e
    dsimp only at hc ho ⊢
    rw [ho]
    rcases hmid c hc with hr | hw
    · cases c with
      | read q n off f => exact (read_step env g _ _ _ _ _).1
      | _ => exact hr.elim
    · cases c with
      | write q data off f => exact (write_step env g _ _ _ _ _).1
      | _ => exact hw.elim
  rw [hnil] at hpush
  cases hpush

/-- As long as no flush comes right after a read that hides a write, there are only reads
and writes after a write that is not pushed. -/
theorem writeUnpushed_block (hsync : FsyncSucceeds env) {w : World ε} {cs : List Callback}
    (hw : (w.fileStatus.entry p).m_strRenamedFromLocal = [])
    (hon : ∀ c ∈ cs, c.OnHandle p pFi) (hhide : ¬ ReadHidesWrite cs)
    (hun : WriteUnpushed p (outcomes (Callback.step env g) cs w)) :
    ∃ pre d mid, cs = pre ++ d :: mid ∧ d.IsWrite ∧ ∀ c ∈ mid, c.IsRead ∨ c.IsWrite := by
  induction cs using List.reverseRecOn with
  | nil =>
    obtain ⟨pre, e, post, h, -⟩ := hun
    simp [outcomes] at h
  | append_singleton cs c ih =>
    have hon' : ∀ d ∈ cs, d.OnHandle p pFi := fun d hd => hon d (List.mem_append_left _ hd)
    have hhide' : ¬ ReadHidesWrite cs := by
      rintro ⟨pre, d, mid, r, f, post, rfl, h⟩
      exact hhide ⟨pre, d, mid, r, f, post ++ [c], by simp, h⟩
    have hc := hon c (by simp)
    rw [outcomes_concat] at hun
    by_cases hcw : c.IsWrite
    · exact ⟨cs, c, [], rfl, hcw, by simp⟩
    · obtain ⟨hun', hpush⟩ := (writeUnpushed_concat hcw).mp hun
      obtain ⟨pre, d, mid, rfl, hd, hmid⟩ := ih hon' hhide' hun'
      obtain ⟨hfsync, hflush, -⟩ := pushes_of_block (g := g) hsync hw hon' hd hmid
      cases c with
      | read q n off f =>
        refine ⟨pre, d, mid ++ [.read q n off f], by simp, hd, fun c hc => ?_⟩
        rcases List.mem_append.mp hc with hc | hc
        · exact hmid c hc
        · rw [List.mem_singleton.mp hc]
          exact Or.inl trivial
      | write q data off f => exact absurd trivial hcw
      | flush q f =>
        obtain ⟨rfl, rfl⟩ := hc
        have hlast : ∀ mid' r, mid = mid' ++ [r] → ¬ r.IsRead := by
          rintro mid' r rfl hr
          exact hhide ⟨pre, d, mid', r, .flush q f, [], by simp, hd,
            fun x hx => hmid x (by simp [hx]), hr, trivial⟩
        exact absurd rfl (hpush _ (hflush hlast ▸ List.mem_singleton_self _))
      | fsync q f =>
        obtain ⟨rfl, rfl⟩ := hc
        exact absurd rfl (hpush _ (hfsync ▸ List.mem_singleton_self _))
      | _ => exact hc.elim

/-- Every flush and fsync pushes the writes before it if and only if no flush comes right
after a read that hides a write. -/
theorem noLostWrite_iff (hsync : FsyncSucceeds env) {w : World ε} {cs : List Callback}
    (hw : (w.fileStatus.entry p).m_strRenamedFromLocal = [])
    (hon : ∀ c ∈ cs, c.OnHandle p pFi) :
    NoLostWrite (g.localPath p) p (outcomes (Callback.step env g) cs w) ↔
      ¬ ReadHidesWrite cs := by
  constructor
  · rintro h ⟨pre, d, mid, r, f, post, rfl, hd, hmid, hr, hf⟩
    have hon' : ∀ c ∈ pre ++ d :: (mid ++ [r]), c.OnHandle p pFi := by
      intro c hc
      exact hon c (by simp at hc ⊢; tauto)
    have hmid' : ∀ c ∈ mid ++ [r], c.IsRead ∨ c.IsWrite := by
      intro c hc
      rcases List.mem_append.mp hc with hc | hc
      · exact hmid c hc
      · rw [List.mem_singleton.mp hc]
        exact Or.inl hr
    obtain ⟨-, -, hread⟩ := pushes_of_block (g := g) hsync hw hon' hd hmid'
    obtain ⟨hnil, hres⟩ := hread mid r rfl hr
    have hf' := hon f (by simp)
    cases f with
    | flush q f =>
      obtain ⟨rfl, rfl⟩ := hf'
      have hcs : pre ++ d :: mid ++ r :: .flush q f :: post =
          (pre ++ d :: (mid ++ [r])) ++ .flush q f :: post := by simp
      have hmem := h _ (.flush q f, _) _ (outcomes_eq_append.mpr ⟨_, post, hcs, rfl, rfl, rfl⟩)
        (Or.inl trivial) hres (writeUnpushed_of_block _ hd hmid')
      rw [hnil] at hmem
      cases hmem
    | _ => exact hf.elim
  · intro hhide pre e post h he _ hun
    obtain ⟨cs₁, cs₂, rfl, rfl, ho, rfl⟩ := outcomes_eq_append.mp h
    have hon' : ∀ d ∈ cs₁, d.OnHandle p pFi := fun d hd => hon d (List.mem_append_left _ hd)
    have hhide' : ¬ ReadHidesWrite cs₁ := by
      rintro ⟨pre, d, mid, r, f, post, rfl, hmid⟩
      exact hhide ⟨pre, d, mid, r, f, post ++ e.1 :: cs₂, by simp, hmid⟩
    obtain ⟨pre, d, mid, rfl, hd, hmid⟩ := writeUnpushed_block hsync hw hon' hhide' hun
    obtain ⟨hfsync, hflush, -⟩ := pushes_of_block (g := g) hsync hw hon' hd hmid
    have hc := hon e.1 (by simp)
    obtain ⟨c, o⟩ := e
    dsimp only at ho hc he ⊢
    subst ho
    cases c with
    | flush q f =>
      obtain ⟨rfl, rfl⟩ := hc
      have hlast : ∀ mid' r, mid = mid' ++ [r] → ¬ r.IsRead := by
        rintro mid' r rfl hr
        exact hhide ⟨pre, d, mid', r, .flush q f, cs₂, by simp, hd,
          fun x hx => hmid x (by simp [hx]), hr, trivial⟩
      rw [hflush hlast]
      exact List.mem_singleton_self _
    | fsync q f =>
      obtain ⟨rfl, rfl⟩ := hc
      rw [hfsync]
      exact List.mem_singleton_self _
    | _ => exact (he.elim id id).elim

end

theorem obliging_fsync : FsyncSucceeds Env.obliging := fun _ _ => ⟨0, rfl⟩

theorem noLostWrite_writeFlush :
    NoLostWrite (exampleGlobals.localPath ['/', 'a']) ['/', 'a']
        (outcomes (Callback.step Env.obliging exampleGlobals)
          [.write ['/', 'a'] ['x'] 0 ⟨5, 2⟩, .flush ['/', 'a'] ⟨5, 2⟩] World.start) ↔
      ¬ ReadHidesWrite [.write ['/', 'a'] ['x'] 0 ⟨5, 2⟩, .flush ['/', 'a'] ⟨5, 2⟩] :=
  noLostWrite_iff obliging_fsync rfl
    (fun c hc => (by simp at hc; rcases hc with rfl | rfl <;> simp [OnHandle] :
      c.OnHandle ['/', 'a'] ⟨5, 2⟩))

/-- A write, a read of the same file, and a flush that pushes nothing. -/
theorem write_read_flush_loses :
    FsyncSucceeds Env.obliging ∧
      (∀ c ∈ [Callback.write ['/', 'a'] ['x'] 0 ⟨5, 2⟩, .read ['/', 'a'] 1 0 ⟨5, 2⟩,
        .flush ['/', 'a'] ⟨5, 2⟩], c.OnHandle ['/', 'a'] ⟨5, 2⟩) ∧
      ¬ NoLostWrite (exampleGlobals.localPath ['/', 'a']) ['/', 'a']
        (outcomes (Callback.step Env.obliging exampleGlobals)
          [.write ['/', 'a'] ['x'] 0 ⟨5, 2⟩, .read ['/', 'a'] 1 0 ⟨5, 2⟩,
            .flush ['/', 'a'] ⟨5, 2⟩] World.start) := by
  refine ⟨obliging_fsync, by simp [OnHandle], fun h => ?_⟩
  have hmem := h _ (.flush ['/', 'a'] ⟨5, 2⟩, ⟨0, []⟩) []
    (outcomes_eq_append.mpr ⟨[.write ['/', 'a'] ['x'] 0 ⟨5, 2⟩, .read ['/', 'a'] 1 0 ⟨5, 2⟩], [],
      rfl, rfl, by decide +kernel, rfl⟩)
    (Or.inl trivial) rfl
    (writeUnpushed_of_block [] trivial (fun c hc => Or.inl (by
      rw [List.mem_singleton.mp hc]
      trivial)))
  cases hmem

end AdbncFs
