import AdbncFs.Contents.Views

/-!
# What the callbacks make of a view

An open, read, write, flush, fsync, release or mknod of a file of the caller's own: what it makes
of what the caller sees, and what it answers, whether its operations succeed or fail.
-/

namespace AdbncFs

open Text Interaction Function

variable {g : Globals} {S : Set Str} {x : View} {p : Str}

/-! ## Opening -/

/-- A path that names no file of the local host. -/
theorem obeys_fileExists (hp : p ∈ S) (hhost : x.disk.content p = none) :
    (fileExists p).Obeys (seen g S) x fun fFound y => fFound = false ∧ y = x := by
  have hmine : (Syscall.stat p).Mine g S x := trivial
  refine Program.obeys_send_bind (S := Sys) (P := seen g S) hmine fun r y hy => ?_
  obtain ⟨hstatus, hdisk, hfound⟩ := hy
  have hy : y = x := congrArg₂ View.mk hstatus hdisk
  cases r with
  | ok => exact absurd hhost (hfound hp)
  | error errno => exact Program.obeys_pure ⟨rfl, hy⟩

theorem obeys_prepareCopy (hp : p ∈ S) (htrunc : (x.status.entry p).m_fTruncated = false)
    (hhost : x.disk.content p = none) :
    (prepareCopy g p).Obeys (seen g S) x fun iRes y =>
      y.status = x.status ∧ x.disk.Pulled p (g.localPath p) (iRes = 0) y.disk := by
  have hsame : ∀ iRes : Int, iRes ≠ 0 → x.status = x.status ∧
      x.disk.Pulled p (g.localPath p) (iRes = 0) x.disk := fun iRes hne =>
    ⟨rfl, _, (Disk.put_self _ _).symm, Or.inl rfl, fun hzero => absurd hzero hne⟩
  refine obeys_fileStatus_bind hp fun s hs => ?_
  rw [FileStatus.truncated_eq, FileStatus.entry_congr hs, htrunc, if_neg (by simp)]
  refine (obeys_doStat p false).bind fun r y hy => ?_
  subst hy
  dsimp only
  split
  · refine (obeys_fileExists hp hhost).bind fun fFound y hy => ?_
    obtain ⟨rfl, rfl⟩ := hy
    rw [if_neg (by simp)]
    exact obeys_pull hp
  · rename_i hne
    exact Program.obeys_pure (hsame _ hne)

/-- The open of such a path, with the handle that it gives. -/
theorem obeys_open {pFi : FileInfo} (hp : p ∈ S) (hflags : pFi.Plain)
    (htrunc : (x.status.entry p).m_fTruncated = false) (hhost : x.disk.content p = none) :
    (adbnc_open g p pFi).Obeys (seen g S) x fun r y =>
      y.status = x.status ∧
        ∃ c, (c = x.disk.content (g.localPath p) ∨
            c = (x.disk.remote p).or (x.disk.content (g.localPath p))) ∧
          ((r.1 = 0 ∧ c ≠ none ∧ ∃ fh, r.2 = some fh ∧ x.disk.handle fh = none ∧
              y.disk = (x.disk.put (g.localPath p) c).setHandle fh (some (g.localPath p))) ∨
            (r.1 ≠ 0 ∧ y.disk = x.disk.put (g.localPath p) c)) := by
  refine (obeys_prepareCopy hp htrunc hhost).bind fun iRes y hy => ?_
  obtain ⟨hstatus, c, hdisk, hc, -⟩ := hy
  split
  · have hmine : (Syscall.open' (g.localPath p) pFi.flags).Mine g S y := ⟨⟨p, hp, rfl⟩, hflags⟩
    refine Program.obeys_send_bind (S := Sys) (P := seen g S) hmine fun r z hz => ?_
    obtain ⟨hstatus', hgives⟩ := hz
    cases r with
    | ok fh =>
      obtain ⟨hcontent, hfresh, hdisk'⟩ := hgives
      rw [hdisk] at hcontent hfresh hdisk'
      rw [Disk.content_put] at hcontent
      exact Program.obeys_pure ⟨hstatus'.trans hstatus, c, hc, Or.inl
        ⟨rfl, hcontent, fh, rfl, hfresh, hdisk'⟩⟩
    | error errno =>
      obtain ⟨hpos, hdisk'⟩ := hgives
      refine Program.obeys_pure ⟨hstatus'.trans hstatus, c, hc, Or.inr ⟨?_, hdisk'.trans hdisk⟩⟩
      show -errno ≠ 0
      omega
  · rename_i hne
    exact Program.obeys_pure ⟨hstatus, c, hc, Or.inr ⟨hne, hdisk⟩⟩

/-! ## Reading and writing -/

theorem obeys_read {iSize : Nat} {iOffset : Int} {pFi : FileInfo} {l c : Str} (hp : p ∈ S)
    (hl : x.disk.handle pFi.fh = some l) (hc : x.disk.content l = some c) :
    (adbnc_read p iSize iOffset pFi).Obeys (linkedSeen g S) x fun r y =>
      y = x.modify p (·.setPendingOpen true false) ∧
        (0 ≤ r.1 → r.2 = slice iSize iOffset c ∧ r.1 = r.2.length) := by
  refine (obeys_sysCalls (obeys_modify hp _)).bind fun _ y hy => ?_
  subst hy
  split
  · have hmine : (Syscall.pread pFi.fh iSize iOffset).Mine g S
        (x.modify p (·.setPendingOpen true false)) := ⟨l, c, hl, hc⟩
    refine (obeys_syscall hmine).bind fun r y hy => ?_
    obtain ⟨hstatus, hdisk, hgives⟩ := hy
    have hsame : y = x.modify p (·.setPendingOpen true false) := congrArg₂ View.mk hstatus hdisk
    have hdata := hgives l c hl hc
    cases r with
    | ok pcBuf => exact Program.obeys_pure ⟨hsame, fun _ => ⟨hdata, rfl⟩⟩
    | error errno =>
      refine Program.obeys_pure ⟨hsame, fun h => ?_⟩
      have hpos := hdata.1
      change 0 ≤ -errno at h
      omega
  · refine Program.obeys_pure ⟨rfl, fun h => ?_⟩
    exact absurd h (by decide)

theorem obeys_write {pcBuf : Str} {iOffset : Int} {pFi : FileInfo} {l c : Str} (hp : p ∈ S)
    (hl : x.disk.handle pFi.fh = some l) (hc : x.disk.content l = some c) :
    (adbnc_write p pcBuf iOffset pFi).Obeys (linkedSeen g S) x fun iRes y =>
      (0 ≤ iRes ∧ y = (x.modify p (·.setPendingOpen true true)).put l
          (some (splice (pcBuf.take iRes.toNat) iOffset c))) ∨
        (iRes < 0 ∧ y = x.modify p (·.setPendingOpen true true)) := by
  refine (obeys_sysCalls (obeys_modify hp _)).bind fun _ y hy => ?_
  subst hy
  have hmine : (Syscall.pwrite pFi.fh pcBuf iOffset).Mine g S
      (x.modify p (·.setPendingOpen true true)) := ⟨l, c, hl, hc⟩
  refine (obeys_syscall hmine).bind fun r y hy => ?_
  obtain ⟨hstatus, hgives⟩ := hy
  have hdata := hgives l c hl hc
  cases r with
  | ok k =>
    obtain ⟨hk, hdisk⟩ := hdata
    exact Program.obeys_pure (Or.inl ⟨hk, congrArg₂ View.mk hstatus hdisk⟩)
  | error errno =>
    obtain ⟨hpos, hdisk⟩ := hdata
    refine Program.obeys_pure (Or.inr ⟨?_, congrArg₂ View.mk hstatus hdisk⟩)
    show -errno < 0
    omega

/-! ## Saving -/

/-- What a save of a path makes of the view, when it succeeds and when it fails. -/
structure View.Saved (g : Globals) (p : Str) (fPushes : Prop) (x : View) (iRes : Int) (y : View) :
    Prop where
  other : ∀ q ≠ p, y.status.entry q = x.status.entry q
  disk : ∃ c, y.disk = x.disk.push p c ∧ (iRes = 0 →
    (fPushes → ∀ b, x.disk.content (g.localPath p) = some b → c = some b) ∧
      (¬ fPushes → c = x.disk.remote p))
  entry : iRes = 0 → ∃ fForWrite,
    y.status.entry p = (x.status.entry p).setPendingOpen false fForWrite

/-- A save that fails before it has changed anything, or that finds nothing to do. -/
theorem View.Saved.refl {fPushes : Prop} {iRes : Int}
    (h : iRes = 0 → ¬ fPushes ∧ (x.status.entry p).m_fPendingOpen = false) :
    x.Saved g p fPushes iRes x where
  other _ _ := rfl
  disk := ⟨_, (Disk.push_self _ _).symm, fun hzero =>
    ⟨fun hpushes => absurd hpushes (h hzero).1, fun _ => rfl⟩⟩
  entry hzero := by
    refine ⟨(x.status.entry p).m_fForWrite, ?_⟩
    rw [FileStatus.Entry.setPendingOpen, ← (h hzero).2]

/-- The push of a path, where there is one, and then its marks are cleared. -/
theorem View.Saved.clear {fPushes : Prop} {iRes : Int} {y : View} (hstatus : y.status = x.status)
    (hdisk : ∃ c, y.disk = x.disk.push p c ∧ (iRes = 0 →
      (fPushes → ∀ b, x.disk.content (g.localPath p) = some b → c = some b) ∧
        (¬ fPushes → c = x.disk.remote p))) :
    x.Saved g p fPushes iRes (y.modify p (·.setPendingOpen false false)) where
  other q hq := by
    show ((y.status.modify p _).entry q) = _
    rw [FileStatus.entry_modify, if_neg hq, hstatus]
  disk := hdisk
  entry _ := by
    refine ⟨false, ?_⟩
    show ((y.status.modify p _).entry p) = _
    rw [FileStatus.entry_modify, if_pos rfl, hstatus]

theorem obeys_push (hp : p ∈ S) :
    (adbncPush (g.localPath p) p).Obeys (linkedSeen g S) x fun iRes y =>
      y.status = x.status ∧ x.disk.Pushed p (g.localPath p) (iRes = 0) y.disk :=
  Program.obeys_send (S := Linked) (P := linkedSeen g S) ⟨hp, rfl⟩

/-- The marks of a path that was not renamed say whether it is pushed. -/
theorem obeys_entryFlush (hp : p ∈ S)
    (hren : (x.status.entry p).m_strRenamedFromLocal = []) :
    ((x.status.entry p).flush p (g.localPath p)).Obeys (linkedSeen g S) x
      (x.Saved g p ((x.status.entry p).m_fPendingOpen = true ∧
        (x.status.entry p).m_fForWrite = true)) := by
  have hend : ∀ (iRes : Int) (y : View), y.status = x.status →
      (∃ c, y.disk = x.disk.push p c ∧ (iRes = 0 →
        ((x.status.entry p).m_fPendingOpen = true ∧ (x.status.entry p).m_fForWrite = true →
          ∀ b, x.disk.content (g.localPath p) = some b → c = some b) ∧
        (¬ ((x.status.entry p).m_fPendingOpen = true ∧ (x.status.entry p).m_fForWrite = true) →
          c = x.disk.remote p))) →
      (do
        setFileStatus (·.modify p (·.setPendingOpen false false))
        return iRes : Program Linked Int).Obeys (linkedSeen g S) y
          (x.Saved g p ((x.status.entry p).m_fPendingOpen = true ∧
            (x.status.entry p).m_fForWrite = true)) := by
    intro iRes y hstatus hdisk
    refine (obeys_sysCalls (obeys_modify hp _)).bind fun _ z hz => ?_
    subst hz
    exact Program.obeys_pure (View.Saved.clear hstatus hdisk)
  rw [FileStatus.Entry.flush]
  simp only [hren, ne_eq, not_true_eq_false, if_false]
  split
  · rename_i hpending
    split
    · rename_i hwrite
      refine (obeys_push hp).bind fun iRes y hy => ?_
      obtain ⟨hstatus, c, hdisk, hdone⟩ := hy
      refine hend iRes y hstatus ⟨c, hdisk, fun hzero => ⟨fun _ b => hdone b hzero, fun hno => ?_⟩⟩
      exact absurd ⟨hpending, hwrite⟩ hno
    · rename_i hwrite
      refine hend 0 x rfl ⟨_, (Disk.push_self _ _).symm, fun _ => ⟨fun hyes => ?_, fun _ => rfl⟩⟩
      exact absurd hyes.2 hwrite
  · rename_i hpending
    refine Program.obeys_pure (View.Saved.refl fun _ => ⟨fun hyes => hpending hyes.1, ?_⟩)
    exact Bool.eq_false_iff.mpr hpending

theorem obeys_invalidate (p : Str) :
    (liftM (invalidate p) : Program Linked Unit).Obeys (linkedSeen g S) x fun _ y => y = x :=
  obeys_sysCalls (obeys_asks (q := invalidate p) (Program.uses_send trivial))

theorem obeys_flush {pFi : FileInfo} (hp : p ∈ S)
    (hren : (x.status.entry p).m_strRenamedFromLocal = []) :
    (adbnc_flush g p pFi).Obeys (linkedSeen g S) x
      (x.Saved g p ((x.status.entry p).m_fPendingOpen = true ∧
        (x.status.entry p).m_fForWrite = true)) := by
  have hflush : (FileStatus.flush p (g.localPath p)).Obeys (linkedSeen g S) x
      (x.Saved g p ((x.status.entry p).m_fPendingOpen = true ∧
        (x.status.entry p).m_fForWrite = true)) := by
    refine obeys_linked_fileStatus_bind hp fun s hs => ?_
    rw [hs]
    split
    · rename_i hnone
      have hnew : x.status.entry p = FileStatus.Entry.new := by
        rw [FileStatus.entry, hnone, Option.getD_none]
      refine Program.obeys_pure (View.Saved.refl fun _ => ?_)
      rw [hnew]
      exact ⟨fun h => Bool.noConfusion h.1, rfl⟩
    · rename_i e hentry
      have he : x.status.entry p = e := by rw [FileStatus.entry, hentry, Option.getD_some]
      rw [← he]
      exact obeys_entryFlush hp hren
  have hpending : (adbnc_flush.flushPending g p).Obeys (linkedSeen g S) x
      (x.Saved g p ((x.status.entry p).m_fPendingOpen = true ∧
        (x.status.entry p).m_fForWrite = true)) := by
    refine obeys_linked_fileStatus_bind hp fun s _ => ?_
    split
    · refine (obeys_invalidate p).bind fun _ y hy => ?_
      subst hy
      exact hflush
    · exact hflush
  have hmine : (Syscall.fsync pFi.fh).Mine g S x := trivial
  refine (obeys_syscall hmine).bind fun r y hy => ?_
  obtain ⟨hstatus, hdisk, hgives⟩ := hy
  obtain rfl : y = x := congrArg₂ View.mk hstatus hdisk
  cases r with
  | ok => exact hpending
  | error errno =>
    dsimp only
    split
    · exact hpending
    · have hpos := hgives.1
      refine Program.obeys_pure (View.Saved.refl fun hzero => ?_)
      omega

theorem obeys_fsync {pFi : FileInfo} (hp : p ∈ S) :
    (adbnc_fsync g p pFi).Obeys (linkedSeen g S) x
      (x.Saved g p ((x.status.entry p).m_fPendingOpen = true)) := by
  have hmine : (Syscall.fsync pFi.fh).Mine g S x := trivial
  refine (obeys_syscall hmine).bind fun r y hy => ?_
  obtain ⟨hstatus, hdisk, hgives⟩ := hy
  obtain rfl : y = x := congrArg₂ View.mk hstatus hdisk
  cases r with
  | error errno =>
    have hpos := hgives.1
    refine Program.obeys_pure (View.Saved.refl fun hzero => ?_)
    omega
  | ok =>
    refine obeys_linked_fileStatus_bind hp fun s hs => ?_
    have hpending : s.pendingOpen p = (y.status.entry p).m_fPendingOpen := by
      rw [FileStatus.pendingOpen_eq, FileStatus.entry_congr hs]
    rw [hpending]
    split
    · rename_i hyes
      refine (obeys_push hp).bind fun iRes z hz => ?_
      obtain ⟨hstatus, c, hdisk, hdone⟩ := hz
      refine (obeys_sysCalls (obeys_modify hp _)).bind fun _ u hu => ?_
      subst hu
      refine (obeys_invalidate p).bind fun _ u hu => ?_
      subst hu
      refine Program.obeys_pure (View.Saved.clear hstatus ⟨c, hdisk, fun hzero => ?_⟩)
      exact ⟨fun _ b => hdone b hzero, fun hno => absurd hyes hno⟩
    · rename_i hno
      exact Program.obeys_pure (View.Saved.refl fun _ => ⟨hno, Bool.eq_false_iff.mpr hno⟩)

/-! ## Closing and making -/

/-- A path of which nothing is known is not even closed. -/
theorem obeys_release {pFi : FileInfo} (hp : p ∈ S) (hfh : x.disk.handle pFi.fh ≠ none) :
    (adbnc_release p pFi).Obeys (linkedSeen g S) x fun _ y =>
      (∀ q ≠ p, y.status.entry q = x.status.entry q) ∧
        (∃ fForWrite, y.status.entry p = (x.status.entry p).setPendingOpen false fForWrite) ∧
        (y.disk = x.disk ∨ y.disk = x.disk.setHandle pFi.fh none) := by
  have hend : ∀ (iRes : Int) (y : View), y.status = x.status →
      (y.disk = x.disk ∨ y.disk = x.disk.setHandle pFi.fh none) →
      (do
        setFileStatus (·.modify p (·.setPendingOpen false false))
        return iRes : Program Linked Int).Obeys (linkedSeen g S) y fun _ y =>
          (∀ q ≠ p, y.status.entry q = x.status.entry q) ∧
            (∃ fForWrite, y.status.entry p = (x.status.entry p).setPendingOpen false fForWrite) ∧
            (y.disk = x.disk ∨ y.disk = x.disk.setHandle pFi.fh none) := by
    intro iRes y hstatus hdisk
    refine (obeys_sysCalls (obeys_modify hp _)).bind fun _ z hz => ?_
    subst hz
    refine Program.obeys_pure ⟨fun q hq => ?_, ⟨false, ?_⟩, hdisk⟩
    · show ((y.status.modify p _).entry q) = _
      rw [FileStatus.entry_modify, if_neg hq, hstatus]
    · show ((y.status.modify p _).entry p) = _
      rw [FileStatus.entry_modify, if_pos rfl, hstatus]
  refine obeys_linked_fileStatus_bind hp fun s hs => ?_
  rw [hs]
  split
  · rename_i hnone
    have hnew : x.status.entry p = FileStatus.Entry.new := by
      rw [FileStatus.entry, hnone, Option.getD_none]
    refine Program.obeys_pure ⟨fun _ _ => rfl, ⟨false, ?_⟩, Or.inl rfl⟩
    rw [hnew]
    rfl
  · rw [FileStatus.Entry.release]
    dsimp only
    split
    · have hmine : (Syscall.close pFi.fh).Mine g S x := hfh
      refine (obeys_syscall hmine).bind fun r y hy => ?_
      obtain ⟨hstatus, hdisk⟩ := hy
      split <;> exact hend _ y hstatus (Or.inr hdisk)
    · exact hend _ x rfl (Or.inl rfl)

/-- It fails before it has made anything, or makes an empty file, and sends it. -/
theorem obeys_mknod {mode : Nat} (rdev : Nat) (hp : p ∈ S) (hmode : IsRegular mode) :
    (adbnc_mknod g p mode rdev).Obeys (linkedSeen g S) x fun iRes y =>
      y.status = x.status ∧ ((iRes ≠ 0 ∧ y.disk = x.disk) ∨
        x.disk.content (g.localPath p) = none ∧
          ∃ c, y.disk = (x.disk.put (g.localPath p) (some [])).push p c ∧
            (iRes = 0 → c = some [])) := by
  have hmine : (Syscall.mknod (g.localPath p) mode rdev).Mine g S x := ⟨⟨p, hp, rfl⟩, hmode⟩
  refine (obeys_syscall hmine).bind fun r y hy => ?_
  obtain ⟨hstatus, hgives⟩ := hy
  cases r with
  | error errno =>
    obtain ⟨hpos, hdisk⟩ := hgives
    refine Program.obeys_pure ⟨hstatus, Or.inl ⟨?_, hdisk⟩⟩
    show -errno ≠ 0
    omega
  | ok =>
    obtain ⟨hnone, hdisk⟩ := hgives
    refine (obeys_push hp).bind fun iRes z hz => ?_
    obtain ⟨hstatus', c, hdisk', hdone⟩ := hz
    have hmade : y.disk.content (g.localPath p) = some [] := by
      rw [hdisk, Disk.content_put]
    have hrest : (do
        invalidate p
        return iRes : Program Linked Int).Obeys (linkedSeen g S) z fun iRes y =>
          y.status = x.status ∧ ((iRes ≠ 0 ∧ y.disk = x.disk) ∨
            x.disk.content (g.localPath p) = none ∧
              ∃ c, y.disk = (x.disk.put (g.localPath p) (some [])).push p c ∧
                (iRes = 0 → c = some [])) := by
      refine (obeys_invalidate p).bind fun _ u hu => ?_
      subst hu
      refine Program.obeys_pure ⟨hstatus'.trans hstatus, Or.inr ⟨hnone, c, ?_, fun hzero => ?_⟩⟩
      · rw [hdisk', hdisk]
      · exact hdone [] hzero hmade
    split
    · have hsync : (adbncShell .sync).Uses (S := Sys) Sys.Op.Asks := Program.uses_send trivial
      refine (obeys_sysCalls (obeys_asks hsync)).bind fun _ u hu => ?_
      subst hu
      exact hrest
    · exact hrest

end AdbncFs
