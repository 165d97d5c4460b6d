import AdbncFs.Writes.Failures
import AdbncFs.Writes.Opening
import AdbncFs.Writes.Releases

/-!
# Truncated files

`adbnc_truncate` changes the local copy and sets a mark of its own, which the next open takes
as a reason not to pull. No flush looks at this mark. `truncation_reaches_iff` says when the
truncated copy reaches the device after all and is what the device has after the last flush:
when a flush or an fsync finds the marks of a read or a write while the copy is still there,
and no call after it changes the device's file. Then no open brings anything else back
(`opens_keep_truncation`).
-/

namespace AdbncFs

open Text Interaction Callback

/-- What the calls do to the files, with those of `HostView`, on a host and a device that
nobody else uses. -/
structure SaveView {ε : Type} (env : Env ε) extends HostView env where
  fsync_files : ∀ fd e, files (env.syscall (.fsync fd) e).2 = files e
  truncate_content : ∀ l n e r, (env.syscall (.truncate l n) e).1 = .ok r →
    (files (env.syscall (.truncate l n) e).2).content l ≠ none
  truncate_errno : ∀ l n e errno, (env.syscall (.truncate l n) e).1 = .error errno → errno ≠ 0
  /-- `mknod` does not replace a file. -/
  mknod_fails : ∀ l mode rdev e, (files e).content l ≠ none →
    ∃ errno, (env.syscall (.mknod l mode rdev) e).1 = .error errno
  /-- `adb push` without an error has replaced its destination by the local file. -/
  push_remote : ∀ l p (w : World ε) c, (files w.env).content l = some c →
    ((execProg (adbArgv true l p) true).run env.handle w).1.2.getD 0 = 0 →
      (files ((execProg (adbArgv true l p) true).run env.handle w).2.env).remote p = some c
  pull_remote : ∀ l p e, (files (env.spawn (adbArgv false l p) true e).2).remote =
    (files e).remote
  open_remote : ∀ l flags e, (files (env.syscall (.open' l flags) e).2).remote = (files e).remote

section

variable {ε : Type} {env : Env ε} (v : SaveView env) (g : Globals)

namespace SaveView

/-- The content of the local copy of `p`. -/
def copy (p : Str) (w : World ε) : Option Str := (v.files w.env).content (g.localPath p)

/-- A push that succeeds leaves the local file on the device. -/
theorem push_run {l p : Str} {w : World ε} {c : Str} (hc : (v.files w.env).content l = some c)
    (h : ((adbncPushPullCmd g true l p).run env.handle w).1 = 0) :
    (v.files ((adbncPushPullCmd g true l p).run env.handle w).2.env).remote p = some c := by
  have hfiles := (v.statOutput_run (parent p) w).2
  rw [adbncPushPullCmd, Program.run_bind, Program.run_ite] at h ⊢
  rw [if_pos rfl, if_pos rfl, run_access] at h ⊢
  generalize (statOutput (parent p)).run env.handle w = r at hfiles h ⊢
  dsimp only at h ⊢
  split at h
  · rename_i haccess
    rw [if_pos haccess, Program.run_bind, Program.run_pure] at *
    exact v.push_remote l p r.2 c (hfiles ▸ hc) h
  · rename_i haccess
    exact absurd h haccess

end SaveView

/-! ## What a flush and an fsync transfer -/

/-- `p` runs the push of `l` to `r` on a world with the same files, and changes nothing
outside but by this push. -/
def Transfers (program : Program Linked Int) (l r : Str) (w : World ε) : Prop :=
  ∃ w₁ : World ε, v.files w₁.env = v.files w.env ∧
    pushedBy env g program (w, []) =
      [((l, r), ((adbncPushPullCmd g true l r).run env.handle w₁).1)] ∧
    (program.run (env.system g) (w, [])).2.1.env =
      ((adbncPushPullCmd g true l r).run env.handle w₁).2.env

theorem entryFlush_transfers (env : Env ε) {e : FileStatus.Entry} {l l₀ p : Str}
    (hl : e.flushed l₀ p = [(l, p)]) (w : World ε) (ps : Pushes) :
    pushedBy env g (e.flush p l₀) (w, ps) =
        [((l, p), ((adbncPushPullCmd g true l p).run env.handle w).1)] ∧
      ((e.flush p l₀).run (env.system g) (w, ps)).2.1.env =
        ((adbncPushPullCmd g true l p).run env.handle w).2.env := by
  unfold FileStatus.Entry.flushed at hl
  unfold FileStatus.Entry.flush
  split at hl
  · rename_i hmarks
    obtain ⟨hp, hw⟩ := hmarks
    by_cases hr : e.m_strRenamedFromLocal = []
    · simp only [hr, ne_eq, not_true_eq_false, if_false, List.cons.injEq, Prod.mk.injEq,
        and_true] at hl
      simp [hp, hw, hr, hl]
    · simp only [ne_eq, hr, not_false_eq_true, if_true, List.cons.injEq, Prod.mk.injEq,
        and_true] at hl
      subst hl
      simp [hp, hw, hr]
  · cases hl

theorem statusFlush_transfers (env : Env ε) {l l₀ p : Str} {w : World ε}
    (hl : (w.fileStatus.entry p).flushed l₀ p = [(l, p)]) (ps : Pushes) :
    pushedBy env g (FileStatus.flush p l₀) (w, ps) =
        [((l, p), ((adbncPushPullCmd g true l p).run env.handle w).1)] ∧
      ((FileStatus.flush p l₀).run (env.system g) (w, ps)).2.1.env =
        ((adbncPushPullCmd g true l p).run env.handle w).2.env := by
  simp only [FileStatus.flush, Program.run_bind, run_liftM, run_fileStatus, pushedBy_bind,
    pushedBy_liftM, List.nil_append]
  cases h : w.fileStatus p with
  | none =>
    rw [entry_of_none h] at hl
    cases hl
  | some e =>
    rw [entry_of_some h] at hl
    exact entryFlush_transfers g env hl w ps

theorem flushPending_transfers {l p : Str} {w : World ε} (w₁ : World ε)
    (hl : (w.fileStatus.entry p).flushed (g.localPath p) p = [(l, p)])
    (hstatus : w₁.fileStatus = w.fileStatus) (hfiles : v.files w₁.env = v.files w.env) :
    ∃ w₂ : World ε, v.files w₂.env = v.files w.env ∧
      pushedBy env g (adbnc_flush.flushPending g p) (w₁, []) =
        [((l, p), ((adbncPushPullCmd g true l p).run env.handle w₂).1)] ∧
      ((adbnc_flush.flushPending g p).run (env.system g) (w₁, [])).2.1.env =
        ((adbncPushPullCmd g true l p).run env.handle w₂).2.env := by
  rw [← hstatus] at hl
  simp only [adbnc_flush.flushPending, Program.run_bind, run_liftM, run_fileStatus,
    Program.run_ite, run_invalidate, pushedBy_bind, pushedBy_liftM, List.nil_append,
    pushedBy_ite]
  split
  · refine ⟨{ w₁ with fileCache := w₁.fileCache.invalidate p }, hfiles, ?_⟩
    apply statusFlush_transfers g env
    exact hl
  · exact ⟨w₁, hfiles, statusFlush_transfers g env hl []⟩

theorem flush_transfers {l p : Str} {pFi : FileInfo} {w : World ε} (h : FlushOk env pFi w.env)
    (hl : (w.fileStatus.entry p).flushed (g.localPath p) p = [(l, p)]) :
    Transfers v g (adbnc_flush g p pFi) l p w := by
  have hpending := flushPending_transfers v g
    { w with env := (env.syscall (.fsync pFi.fh) w.env).2 } hl rfl (v.fsync_files _ _)
  rw [Transfers, pushedBy_flush g h, run_flush env g h]
  exact hpending

theorem fsync_transfers {p : Str} {pFi : FileInfo} {w : World ε} (h : SyncOk env pFi w.env)
    (hp : (w.fileStatus.entry p).m_fPendingOpen = true) :
    Transfers v g (adbnc_fsync g p pFi) (g.localPath p) p w := by
  refine ⟨{ w with env := (env.syscall (.fsync pFi.fh) w.env).2 }, v.fsync_files _ _, ?_⟩
  rw [pushedBy_fsync g h, run_fsync env g h]
  dsimp only
  rw [if_pos hp, if_pos hp]
  exact ⟨rfl, rfl⟩

/-! ## Who pushes -/

/-- A flush or an fsync of `p` that goes on and finds the marks it pushes the local copy for:
a flush those of a write to a file that was not renamed, an fsync those of a read or a
write. -/
def FindsMarks (env : Env ε) (g : Globals) (p : Str) (w : World ε) : Callback → Prop
  | .flush q pFi => q = p ∧ FlushOk env pFi w.env ∧
      (w.fileStatus.entry p).m_fPendingOpen = true ∧ (w.fileStatus.entry p).m_fForWrite = true ∧
      ((w.fileStatus.entry p).m_strRenamedFromLocal = [] ∨
        (w.fileStatus.entry p).m_strRenamedFromLocal = g.localPath p)
  | .fsync q pFi => q = p ∧ SyncOk env pFi w.env ∧ (w.fileStatus.entry p).m_fPendingOpen = true
  | _ => False

theorem flushed_eq_single_iff {e : FileStatus.Entry} {l p : Str} :
    e.flushed l p = [(l, p)] ↔ e.m_fPendingOpen = true ∧ e.m_fForWrite = true ∧
      (e.m_strRenamedFromLocal = [] ∨ e.m_strRenamedFromLocal = l) := by
  unfold FileStatus.Entry.flushed
  cases e.m_fPendingOpen <;> cases e.m_fForWrite <;>
    by_cases hr : e.m_strRenamedFromLocal = [] <;> simp [hr]

theorem findsMarks_transfers {p : Str} {w : World ε} {c : Callback}
    (h : FindsMarks env g p w c) :
    Transfers v g (c.program g) (g.localPath p) p w := by
  cases c with
  | flush q pFi =>
    obtain ⟨rfl, hok, hmarks⟩ := h
    exact flush_transfers v g hok (flushed_eq_single_iff.mpr hmarks)
  | fsync q pFi =>
    obtain ⟨rfl, hok, hp⟩ := h
    exact fsync_transfers v g hok hp
  | _ => exact h.elim

theorem mem_flushed {e : FileStatus.Entry} {l₀ q l p : Str} (h : (l, p) ∈ e.flushed l₀ q) :
    q = p ∧ e.flushed l₀ q = [(l, p)] := by
  unfold FileStatus.Entry.flushed at h ⊢
  split at h
  · rename_i hmarks
    have heq := List.mem_singleton.mp h
    rw [if_pos hmarks, ← heq]
    exact ⟨(congrArg Prod.snd heq).symm, rfl⟩
  · cases h

theorem mem_synced {e : FileStatus.Entry} {l₀ q l p : Str} (h : (l, p) ∈ e.synced l₀ q) :
    q = p ∧ e.m_fPendingOpen = true := by
  unfold FileStatus.Entry.synced at h
  split at h
  · rename_i hp
    exact ⟨(congrArg Prod.snd (List.mem_singleton.mp h)).symm, hp⟩
  · cases h

theorem mem_asked {asked : Pushes} {o : Observed} {result answer : Int} {push : Str × Str}
    (h : AnswersPush asked o.pushed result) (hmem : (push, answer) ∈ o.pushed) :
    push ∈ asked := by
  obtain ⟨_, hpushed, -⟩ := h
  rw [hpushed] at hmem
  obtain ⟨push', hpush', heq⟩ := List.mem_map.mp hmem
  cases heq
  exact hpush'

/-- While the local copy of `p` is there, only a flush or an fsync that finds marks pushes
it. -/
theorem findsMarks_of_pushed {p : Str} {w : World ε} {c : Callback} {answer : Int}
    (hcopy : v.copy g p w ≠ none)
    (h : ((g.localPath p, p), answer) ∈ (c.observe env g w).1.pushed) :
    FindsMarks env g p w c := by
  have hnil : (c.observe env g w).1.pushed = [] → False := by
    intro hnil
    rw [hnil] at h
    cases h
  cases c with
  | flush q f =>
    by_cases hok : FlushOk env f w.env
    · obtain ⟨rfl, hl⟩ := mem_flushed (mem_asked (flush_answers g hok) h)
      exact ⟨rfl, hok, flushed_eq_single_iff.mp hl⟩
    · exact (hnil (flush_blocked g hok).1).elim
  | fsync q f =>
    by_cases hok : SyncOk env f w.env
    · obtain ⟨rfl, hp⟩ := mem_synced (mem_asked (fsync_answers g hok) h)
      exact ⟨rfl, hok, hp⟩
    · exact (hnil (fsync_blocked g hok).1).elim
  | mknod q mode rdev =>
    rcases mknod_pushed g env q mode rdev w with hpushed | ⟨⟨r, hr⟩, answer', hpushed⟩
    · exact (hnil hpushed).elim
    · rw [hpushed, List.mem_singleton, Prod.mk.injEq, Prod.mk.injEq] at h
      obtain ⟨errno, herr⟩ := v.mknod_fails (g.localPath p) mode rdev w.env hcopy
      rw [h.1.1, hr] at herr
      cases herr
  | _ => exact (hnil (pushed_nil g env id w)).elim

/-! ## Later opens -/

/-- However often `p` is opened, the device keeps `t`, and an open that changes the local copy
makes it `t`. -/
def OpensKeep (p : Str) (t : Option Str) (w : World ε) : Prop :=
  ∀ opens : List FileInfo, (∀ pFi ∈ opens, pFi.Plain) →
    let o := final (Callback.step env g) (opens.map (Callback.open' p)) w
    (v.files o.env).remote p = t ∧ (v.copy g p o = v.copy g p w ∨ v.copy g p o = t)

/-- The operations of an open of `p`. -/
def OfOpen (g : Globals) (p : Str) : Sys.Op → Prop
  | .shell (.stat _) | .cacheGet _ _ | .cachePut _ _ _ | .fileStatus | .setFileStatus _
  | .syscall (.stat _) | .syscall (.open' _ _) => True
  | .spawn argv fUseStdErr => argv = adbArgv false (g.localPath p) p ∧ fUseStdErr = true
  | _ => False

theorem uses_open (p : Str) (pFi : FileInfo) :
    (adbnc_open g p pFi).Uses (S := Sys) (OfOpen g p) := by
  refine Program.uses_bind (uses_prepareCopy (fun _ => trivial) (fun _ _ => trivial) g
    trivial trivial (fun _ => trivial) trivial ⟨rfl, rfl⟩) fun iRes => ?_
  split
  · refine Program.uses_bind (Program.uses_send trivial) fun r => ?_
    split <;> exact Program.uses_pure _
  · exact Program.uses_pure _

/-- An open changes nothing on the device. -/
theorem open_remote (p : Str) (pFi : FileInfo) (w : World ε) :
    (v.files ((Callback.open' p pFi).step env g w).2.env).remote = (v.files w.env).remote := by
  have hop : ∀ op, OfOpen g p op → ∀ s : World ε,
      (v.files (env.handle op s).2.env).remote = (v.files s.env).remote := by
    intro op hop s
    cases op with
    | cacheGet k q => exact congrArg Files.remote (v.time_files s.env)
    | cachePut k q o => exact congrArg Files.remote (v.time_files s.env)
    | shell command =>
      cases command with
      | stat q => exact congrArg Files.remote (v.stat_files q s.env)
      | _ => exact hop.elim
    | spawn argv fUseStdErr =>
      obtain ⟨rfl, rfl⟩ := hop
      exact v.pull_remote _ _ s.env
    | syscall call =>
      cases call with
      | stat q => exact congrArg Files.remote (v.found_files q s.env)
      | open' l flags => exact v.open_remote l flags s.env
      | _ => exact hop.elim
    | fileStatus => rfl
    | setFileStatus f => rfl
    | invalidate q => exact hop.elim
  have hrun := Program.run_uses (R := fun a b : World ε =>
    (v.files b.env).remote = (v.files a.env).remote) (fun _ => rfl) (fun h₁ h₂ => h₂.trans h₁) hop
    (uses_open g p pFi) w
  simp only [Callback.step, Callback.program, Program.run_bind, run_liftM, Program.run_pure]
  exact hrun

/-- An open that changes the local copy makes it what the device has. -/
theorem open_copy {p : Str} {pFi : FileInfo} (hplain : pFi.Plain) {w : World ε}
    (hfile : (v.files w.env).remote p ≠ none) :
    v.copy g p ((Callback.open' p pFi).step env g w).2 = v.copy g p w ∨
      v.copy g p ((Callback.open' p pFi).step env g w).2 = (v.files w.env).remote p := by
  obtain ⟨hpulls, hkeeps⟩ := v.prepareCopy_content g w p
  unfold SaveView.copy
  rw [open_content v.toHostView g hplain]
  by_cases h : v.Pulls g w p
  · obtain ⟨x, hx⟩ := Option.ne_none_iff_exists'.mp hfile
    rw [hpulls h, hx]
    exact Or.inr rfl
  · exact Or.inl (hkeeps h)

/-- Once the device has the copy, no sequence of opens brings back another content. -/
theorem opens_keep_truncation {p : Str} {t : Option Str} (ht : t ≠ none) {w : World ε}
    (hw : (v.files w.env).remote p = t) : OpensKeep v g p t w := by
  intro opens hplain
  refine final_induct (I := fun o => (v.files o.env).remote p = t ∧
    (v.copy g p o = v.copy g p w ∨ v.copy g p o = t)) ⟨hw, Or.inl rfl⟩ fun pre c post h hs => ?_
  have hc : c ∈ opens.map (Callback.open' p) := by simp [h]
  obtain ⟨pFi, hpFi, rfl⟩ := List.mem_map.mp hc
  obtain ⟨hremote, hcopy⟩ := hs
  rw [open_remote]
  refine ⟨hremote, ?_⟩
  rcases open_copy v g (hplain pFi hpFi) (hremote ▸ ht) with hkept | hpulled
  · rwa [hkept]
  · exact Or.inr (hpulled.trans hremote)

/-! ## When a truncation reaches the device -/

/-- A call of the run pushes the copy `t` of `p`. The device has it ever since, after the last
call too and however often `p` is opened after that. -/
def CopyReaches (p : Str) (t : Option Str) (cs : List Callback) (w : World ε) : Prop :=
  ∃ pre c post, cs = pre ++ c :: post ∧
    let s := final (Callback.step env g) pre w
    v.copy g p s = t ∧ (c.observe env g s).1.PushSucceeds (g.localPath p) p ∧
      (∀ post₁ post₂, post = post₁ ++ post₂ →
        (v.files (final (Callback.step env g) post₁ (c.step env g s).2).env).remote p = t) ∧
      OpensKeep v g p t (final (Callback.step env g) cs w)

/-- A call leaves the device's file `p` as it finds it. -/
def LeavesFile (p : Str) (w : World ε) (c : Callback) : Prop :=
  (v.files (c.step env g w).2.env).remote p = (v.files w.env).remote p

/-- A flush or an fsync of the run finds marks while the copy is still `t`, and each call after
it leaves the device's file. -/
def CopyMarked (p : Str) (t : Option Str) (cs : List Callback) (w : World ε) : Prop :=
  ∃ pre c post, cs = pre ++ c :: post ∧
    let s := final (Callback.step env g) pre w
    v.copy g p s = t ∧ FindsMarks env g p s c ∧
      ∀ post₁ d post₂, post = post₁ ++ d :: post₂ →
        LeavesFile v g p (final (Callback.step env g) post₁ (c.step env g s).2) d

/-- Every push of the run succeeds. -/
def PushesSucceed (env : Env ε) (g : Globals) (cs : List Callback) (w : World ε) : Prop :=
  ∀ pre c post, cs = pre ++ c :: post →
    ∀ push ∈ (c.observe env g (final (Callback.step env g) pre w)).1.pushed, push.2 = 0

/-- The push of a flush or an fsync that finds marks: where it succeeds, the device has the
copy. -/
theorem remote_of_findsMarks {p : Str} {w : World ε} {c : Callback} {x : Str}
    (hmarks : FindsMarks env g p w c) (hcopy : v.copy g p w = some x)
    (hpush : ∀ push ∈ (c.observe env g w).1.pushed, push.2 = 0) :
    (c.observe env g w).1.PushSucceeds (g.localPath p) p ∧
      (v.files (c.step env g w).2.env).remote p = some x := by
  obtain ⟨w₁, hfiles, hpushed, henv⟩ := findsMarks_transfers v g hmarks
  have hsrc : (v.files w₁.env).content (g.localPath p) = some x := by
    rw [hfiles]
    exact hcopy
  have hzero : ((adbncPushPullCmd g true (g.localPath p) p).run env.handle w₁).1 = 0 := by
    refine hpush ((g.localPath p, p), _) ?_
    rw [observe_pushed, hpushed]
    exact List.mem_singleton_self _
  refine ⟨?_, ?_⟩
  · rw [Observed.PushSucceeds, observe_pushed, hpushed, hzero]
    exact List.mem_singleton_self _
  · exact (congrArg (fun e => (v.files e).remote p) henv).trans (v.push_run g hsrc hzero)

/-- Calls that leave the device's file one after another. -/
theorem remote_final {p : Str} {cs : List Callback} {w : World ε}
    (h : ∀ pre c post, cs = pre ++ c :: post →
      LeavesFile v g p (final (Callback.step env g) pre w) c) :
    (v.files (final (Callback.step env g) cs w).env).remote p = (v.files w.env).remote p :=
  final_induct (I := fun s : World ε => (v.files s.env).remote p = (v.files w.env).remote p) rfl
    fun pre c post hcs hs => (h pre c post hcs).trans hs

theorem copyReaches_iff {p : Str} {t : Option Str} (ht : t ≠ none) {cs : List Callback}
    {w : World ε} (hpush : PushesSucceed env g cs w) :
    CopyReaches v g p t cs w ↔ CopyMarked v g p t cs w := by
  constructor
  · rintro ⟨pre, c, post, hcs, hcopy, hsucc, hremote, -⟩
    have hne : v.copy g p (final (Callback.step env g) pre w) ≠ none := by
      rw [hcopy]
      exact ht
    refine ⟨pre, c, post, hcs, hcopy, findsMarks_of_pushed v g hne hsucc, ?_⟩
    intro post₁ d post₂ hpost
    have hafter := hremote (post₁ ++ [d]) post₂ (by simp [hpost])
    rw [final_append] at hafter
    exact hafter.trans (hremote post₁ (d :: post₂) hpost).symm
  · rintro ⟨pre, c, post, rfl, hcopy, hmarks, hleaves⟩
    obtain ⟨x, rfl⟩ := Option.ne_none_iff_exists'.mp ht
    obtain ⟨hsucc, hremote⟩ := remote_of_findsMarks v g hmarks hcopy (hpush pre c post rfl)
    have hsince : ∀ post₁ post₂, post = post₁ ++ post₂ →
        (v.files (final (Callback.step env g) post₁
          (c.step env g (final (Callback.step env g) pre w)).2).env).remote p = some x := by
      rintro post₁ post₂ rfl
      refine (remote_final v g fun pre' d post' h => ?_).trans hremote
      exact hleaves pre' d (post' ++ post₂) (by simp [h])
    refine ⟨pre, c, post, rfl, hcopy, hsucc, hsince, opens_keep_truncation v g ht ?_⟩
    rw [final_append]
    exact hsince post [] (List.append_nil post).symm

/-- A truncation that succeeds leaves a local copy. -/
theorem copy_truncate {p : Str} {n : Int} {w : World ε}
    (h : ((Callback.truncate p n).step env g w).1.result = 0) :
    v.copy g p ((Callback.truncate p n).step env g w).2 ≠ none := by
  unfold SaveView.copy
  simp only [Callback.step, Callback.program, adbnc_truncate, Program.run_bind, run_liftM,
    Program.run_ite, run_syscall] at h ⊢
  generalize (doStat p false).run env.handle w = r at h ⊢
  split at h
  · rename_i hstat
    rw [if_pos hstat]
    split at h
    · rename_i x hx
      exact v.truncate_content _ _ _ _ hx
    · rename_i errno he
      have hne := v.truncate_errno _ _ _ _ he
      have hzero : -errno = 0 := h
      omega
  · rename_i hstat
    exact absurd h hstat

/-- The world after a truncation that a run has come to. -/
def afterTruncate (env : Env ε) (g : Globals) (pre : List Callback) (p : Str) (n : Int)
    (w : World ε) : World ε :=
  ((Callback.truncate p n).step env g (final (Callback.step env g) pre w)).2

/-- The truncated copy reaches the device in the calls up to a flush, and is still there after
it, exactly when one of these calls is a flush or an fsync that finds marks while the truncated
copy is there and those after it leave the device's file. -/
theorem truncation_reaches_iff {pre mid : List Callback} {p : Str} {n : Int} {pFi : FileInfo}
    {w : World ε}
    (htrunc : ((Callback.truncate p n).step env g
      (final (Callback.step env g) pre w)).1.result = 0)
    (hpush : PushesSucceed env g (mid ++ [.flush p pFi]) (afterTruncate env g pre p n w)) :
    CopyReaches v g p (v.copy g p (afterTruncate env g pre p n w)) (mid ++ [.flush p pFi])
        (afterTruncate env g pre p n w) ↔
      CopyMarked v g p (v.copy g p (afterTruncate env g pre p n w)) (mid ++ [.flush p pFi])
        (afterTruncate env g pre p n w) :=
  copyReaches_iff v g (copy_truncate v g htrunc) hpush

end

/-! ## A truncation that is lost -/

def Copies.saveView : SaveView Copies.env where
  toHostView := Copies.view
  fsync_files _ _ := rfl
  truncate_content l n e r h := by
    change (Copies.syscall (.truncate l n) e).1 = .ok r at h
    change (Copies.syscall (.truncate l n) e).2.files l ≠ none
    unfold Copies.syscall at h ⊢
    dsimp only at h ⊢
    cases hl : e.files l with
    | none =>
      rw [hl] at h
      cases h
    | some c => simp
  truncate_errno l n e errno h := by
    change (Copies.syscall (.truncate l n) e).1 = .error errno at h
    unfold Copies.syscall at h
    dsimp only at h
    cases hl : e.files l with
    | none =>
      rw [hl] at h
      cases h
      decide
    | some c =>
      rw [hl] at h
      cases h
  mknod_fails l mode rdev e h := by
    change ∃ errno, (Copies.syscall (.mknod l mode rdev) e).1 = .error errno
    have hl : (e.files l).isSome = true := Option.isSome_iff_ne_none.mpr h
    refine ⟨EEXIST, ?_⟩
    unfold Copies.syscall
    dsimp only
    rw [if_pos hl]
  push_remote l p w c hc _ := by
    rw [run_execProg]
    change (w.env.spawn (adbArgv true l p)).device p = some c
    have hlocal : w.env.files l = some c := hc
    simp [Copies.spawn, adbArgv, hlocal]
  pull_remote l p e := by
    change (e.spawn (adbArgv false l p)).device = e.device
    simp [Copies.spawn, adbArgv]
  open_remote l flags e := by
    change (Copies.syscall (.open' l flags) e).2.device = e.device
    unfold Copies.syscall
    dsimp only
    split <;> rfl

theorem pushesSucceed_single {ε : Type} {env : Env ε} {g : Globals} {c : Callback} {w : World ε}
    (h : ∀ push ∈ (c.observe env g w).1.pushed, push.2 = 0) : PushesSucceed env g [c] w := by
  intro pre d post hcs
  rcases pre with _ | ⟨x, pre⟩
  · cases hcs
    exact h
  · rw [List.cons_append, List.cons.injEq] at hcs
    exact absurd hcs.2.symm (List.append_ne_nil_of_right_ne_nil pre (List.cons_ne_nil d post))

/-- The device of `Copies.start`, which also has its root directory. -/
def Copies.rooted : World Copies :=
  { start with env :=
    { start.env with device := Function.update start.env.device ['/'] (some []) } }

/-- A file is opened and written, then truncated and flushed. -/
theorem truncation_reaches_written :
    CopyReaches Copies.saveView exampleGlobals ['/', 'a']
        (Copies.saveView.copy exampleGlobals ['/', 'a']
          (afterTruncate Copies.env exampleGlobals Copies.changed ['/', 'a'] 1 Copies.rooted))
        ([] ++ [.flush ['/', 'a'] ⟨5, 2⟩])
        (afterTruncate Copies.env exampleGlobals Copies.changed ['/', 'a'] 1 Copies.rooted) ↔
      CopyMarked Copies.saveView exampleGlobals ['/', 'a']
        (Copies.saveView.copy exampleGlobals ['/', 'a']
          (afterTruncate Copies.env exampleGlobals Copies.changed ['/', 'a'] 1 Copies.rooted))
        ([] ++ [.flush ['/', 'a'] ⟨5, 2⟩])
        (afterTruncate Copies.env exampleGlobals Copies.changed ['/', 'a'] 1 Copies.rooted) :=
  truncation_reaches_iff Copies.saveView exampleGlobals (by decide +kernel)
    (pushesSucceed_single (by decide +kernel))

/-- A file is opened, truncated and flushed: nothing is pushed, and the second open after that
has the old content again. -/
theorem truncation_lost :
    let w := afterTruncate Copies.env exampleGlobals [.open' ['/', 'a'] ⟨0, 2⟩] ['/', 'a'] 1
      Copies.start
    ((Callback.truncate ['/', 'a'] 1).step Copies.env exampleGlobals
        (final (Callback.step Copies.env exampleGlobals) [.open' ['/', 'a'] ⟨0, 2⟩]
          Copies.start)).1.result = 0 ∧
      ((Callback.flush ['/', 'a'] ⟨5, 2⟩).step Copies.env exampleGlobals w).1.result = 0 ∧
      PushesSucceed Copies.env exampleGlobals [.flush ['/', 'a'] ⟨5, 2⟩] w ∧
      Copies.saveView.copy exampleGlobals ['/', 'a'] w = some ['o'] ∧
      ¬ CopyReaches Copies.saveView exampleGlobals ['/', 'a'] (some ['o'])
        [.flush ['/', 'a'] ⟨5, 2⟩] w ∧
      Copies.saveView.copy exampleGlobals ['/', 'a']
        (final (Callback.step Copies.env exampleGlobals)
          [.flush ['/', 'a'] ⟨5, 2⟩, .open' ['/', 'a'] ⟨0, 2⟩, .open' ['/', 'a'] ⟨0, 2⟩] w) =
            some ['o', 'l', 'd'] := by
  refine ⟨by decide +kernel, by decide +kernel, pushesSucceed_single (by decide +kernel),
    by decide +kernel, ?_, by decide +kernel⟩
  rintro ⟨pre, c, post, hcs, -, hsucc, -, -⟩
  rcases pre with _ | ⟨x, pre⟩
  · cases hcs
    have hnil : ((Callback.flush ['/', 'a'] ⟨5, 2⟩).observe Copies.env exampleGlobals
        (afterTruncate Copies.env exampleGlobals [.open' ['/', 'a'] ⟨0, 2⟩] ['/', 'a'] 1
          Copies.start)).1.pushed = [] := by decide +kernel
    exact not_succeeds_of_nil hnil hsucc
  · rw [List.cons_append, List.cons.injEq] at hcs
    exact List.append_ne_nil_of_right_ne_nil pre (List.cons_ne_nil c post) hcs.2.symm

end AdbncFs
