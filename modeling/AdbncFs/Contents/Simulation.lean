import AdbncFs.Contents.Sessions
import AdbncFs.Contents.Steps

/-!
# Sessions keep to the store

Each allowed call keeps the relation between what the caller sees and its store
(`obeys_reply`). The lemmas before it are one for each kind of call, about the path of the call.
-/

namespace AdbncFs

open Text Interaction Function WriteBack

variable {g : Globals} {S : Set Str} {x y : View} {p : Str}

namespace Holds

variable {s : Store Str Int Str} {R R' : Prop}

/-- A copy that is there is what a reader of the store sees. -/
theorem exists_copy (h : Holds g p x s R) (hne : x.disk.content (g.localPath p) ≠ none) :
    ∃ c, s.content p = some c ∧ x.disk.content (g.localPath p) = some c := by
  obtain ⟨c, hc⟩ := Option.ne_none_iff_exists'.mp hne
  exact ⟨c, (h.copy.resolve_left hne).symm.trans hc, hc⟩

theorem mono (h : Holds g p x s R) (hR : R → R') : Holds g p x s R' :=
  { h with unsaved := fun hne => ⟨(h.unsaved hne).1, fun hr => (h.unsaved hne).2 (hr ∘ hR)⟩ }

/-- Another copy that the store agrees with. -/
theorem put (h : Holds g p x s R) {c : Option Str} (hc : c = none ∨ c = s.content p)
    (hkept : x.disk.content (g.localPath p) ≠ none → c ≠ none) (hlocal : g.localPath p ≠ p) :
    Holds g p (x.put (g.localPath p) c) s R := by
  have hcopy : (x.put (g.localPath p) c).disk.content (g.localPath p) = c :=
    Disk.content_put ..
  exact {
    stored := h.stored
    copy := by rw [hcopy]; exact hc
    opened := fun fh hfh => by rw [hcopy]; exact hkept (h.opened fh hfh)
    unsaved := h.unsaved
    pending := fun hp => by rw [hcopy]; exact hkept (h.pending hp)
    notRenamed := h.notRenamed
    notTruncated := h.notTruncated
    host := (Disk.content_put_ne hlocal.symm c x.disk).trans h.host }

/-- A pull of a path without unsaved changes gives such a copy. -/
theorem pulled (h : Holds g p x s R) (hclean : s.unsaved p = none) {c : Option Str}
    (hc : c = x.disk.content (g.localPath p) ∨
      c = (x.disk.remote p).or (x.disk.content (g.localPath p)))
    (hlocal : g.localPath p ≠ p) : Holds g p (x.put (g.localPath p) c) s R := by
  rw [h.stored, ← Store.content_of_saved hclean] at hc
  refine h.put ?_ ?_ hlocal
  · rcases h.copy with hold | hold <;> rw [hold] at hc <;> rcases hc with rfl | rfl
    · exact Or.inl rfl
    · exact Or.inr Option.or_none
    · exact Or.inr rfl
    · exact Or.inr Option.or_self
  · intro hne
    rcases hc with rfl | rfl
    · exact hne
    · exact fun hnone => hne (Option.or_eq_none_iff.mp hnone).2

theorem openedAt (h : Holds g p x s R) (hne : x.disk.content (g.localPath p) ≠ none) (fh : Int)
    (l : Option Str) : Holds g p (x.setHandle fh l) (s.apply (.opened p fh)) R :=
  { h with opened := fun _ _ => hne }

/-- A read sets a mark, and takes the mark for writing away. -/
theorem marked (h : Holds g p x s R) (hne : x.disk.content (g.localPath p) ≠ none)
    {fForWrite : Bool} (hwrite : ¬ R' → fForWrite = true) :
    Holds g p (x.modify p (·.setPendingOpen true fForWrite)) s R' := by
  have hentry : (x.modify p (·.setPendingOpen true fForWrite)).status.entry p =
      (x.status.entry p).setPendingOpen true fForWrite :=
    (FileStatus.entry_modify ..).trans (if_pos rfl)
  exact {
    stored := h.stored
    copy := h.copy
    opened := h.opened
    unsaved := fun _ => by rw [hentry]; exact ⟨rfl, hwrite⟩
    pending := fun _ => hne
    notRenamed := by rw [hentry]; exact h.notRenamed
    notTruncated := by rw [hentry]; exact h.notTruncated
    host := h.host }

theorem written (h : Holds g p x s R) {c : Str} (hc : s.content p = some c) (f : Str → Str)
    (hpending : (x.status.entry p).m_fPendingOpen = true)
    (hwrite : (x.status.entry p).m_fForWrite = true) (hlocal : g.localPath p ≠ p) :
    Holds g p (x.put (g.localPath p) (some (f c))) (s.apply (.edited p f)) R := by
  have hcopy : (x.put (g.localPath p) (some (f c))).disk.content (g.localPath p) = some (f c) :=
    Disk.content_put ..
  have hview : (s.apply (.edited p f)).content p = some (f c) := by
    rw [Store.content_apply, Act.effect, if_pos rfl, hc, Option.map_some]
  exact {
    stored := h.stored
    copy := Or.inr (hcopy.trans hview.symm)
    opened := fun _ _ => by rw [hcopy]; exact Option.some_ne_none _
    unsaved := fun _ => ⟨hpending, fun _ => hwrite⟩
    pending := fun _ => by rw [hcopy]; exact Option.some_ne_none _
    notRenamed := h.notRenamed
    notTruncated := h.notTruncated
    host := (Disk.content_put_ne hlocal.symm _ x.disk).trans h.host }

/-- A save that the marks ask for, or that has nothing to save. -/
theorem saved (h : Holds g p x s R) {fPushes : Prop} (hsaved : x.Saved g p fPushes 0 y)
    (hcopy : fPushes → x.disk.content (g.localPath p) ≠ none)
    (hclean : ¬ fPushes → s.unsaved p = none) : Holds g p y (s.apply (.saved p)) R := by
  obtain ⟨c, hdisk, hc⟩ := hsaved.disk
  obtain ⟨hpushed, hkept⟩ := hc rfl
  obtain ⟨fForWrite, hentry⟩ := hsaved.entry rfl
  have hview : (s.apply (.saved p)).content p = s.content p := Store.content_apply s (.saved p) p
  have hfiles : y.disk.content = x.disk.content := by rw [hdisk, Disk.content_push]
  exact {
    stored := by
      have hstored : (s.apply (.saved p)).stored p = s.content p := update_self ..
      rw [hdisk, hstored]
      refine (update_self ..).trans ?_
      by_cases hpushes : fPushes
      · obtain ⟨b, hb, hlocal⟩ := h.exists_copy (hcopy hpushes)
        rw [hb]
        exact hpushed hpushes b hlocal
      · rw [hkept hpushes, h.stored, Store.content_of_saved (hclean hpushes)]
    copy := by rw [hfiles, hview]; exact h.copy
    opened := fun fh hfh => by rw [hfiles]; exact h.opened fh hfh
    unsaved := fun hne => absurd (update_self ..) hne
    pending := fun hp => by
      rw [hentry] at hp
      exact Bool.noConfusion hp
    notRenamed := by rw [hentry]; exact h.notRenamed
    notTruncated := by rw [hentry]; exact h.notTruncated
    host := by rw [hfiles]; exact h.host }

theorem closed (h : Holds g p x s R) (hclean : s.unsaved p = none) {fh : Int}
    (hentry : ∃ fForWrite, y.status.entry p = (x.status.entry p).setPendingOpen false fForWrite)
    (hdisk : y.disk = x.disk ∨ y.disk = x.disk.setHandle fh none) :
    Holds g p y (s.apply (.closed fh)) R := by
  obtain ⟨fForWrite, hentry⟩ := hentry
  have hcontent : y.disk.content = x.disk.content := by
    rcases hdisk with hdisk | hdisk <;> rw [hdisk]
    exact Disk.content_setHandle ..
  have hremote : y.disk.remote = x.disk.remote := by
    rcases hdisk with hdisk | hdisk <;> rw [hdisk]
    rfl
  exact {
    stored := by rw [hremote]; exact h.stored
    copy := by rw [hcontent]; exact h.copy
    opened := fun fh' hfh => by rw [hcontent]; exact h.opened fh' (Store.handles_closed hfh).2
    unsaved := fun hne => absurd hclean hne
    pending := fun hp => by
      rw [hentry] at hp
      exact Bool.noConfusion hp
    notRenamed := by rw [hentry]; exact h.notRenamed
    notTruncated := by rw [hentry]; exact h.notTruncated
    host := by rw [hcontent]; exact h.host }

/-- There was no copy, so that nothing is open or pending on the path. -/
theorem created (h : Holds g p x s R) (hnone : x.disk.content (g.localPath p) = none)
    (hlocal : g.localPath p ≠ p) :
    Holds g p ((x.put (g.localPath p) (some [])).push p (some [])) (s.apply (.created p [])) R := by
  have hcopy : ((x.put (g.localPath p) (some [])).push p (some [])).disk.content
      (g.localPath p) = some [] := (Disk.content_put ..)
  exact {
    stored := by
      have hstored : (s.apply (.created p [])).stored p = some [] := update_self ..
      rw [hstored]
      exact update_self ..
    copy := by
      rw [hcopy, Store.content_apply, Act.effect, if_pos rfl]
      exact Or.inr rfl
    opened := fun fh hfh => absurd hnone (h.opened fh hfh)
    unsaved := fun hne => absurd (update_self ..) hne
    pending := fun hp => absurd hnone (h.pending hp)
    notRenamed := h.notRenamed
    notTruncated := h.notTruncated
    host := (Disk.content_put_ne hlocal.symm _ x.disk).trans h.host }

end Holds

/-! ## Calls -/

variable {s : Caller}

namespace View.OnlyAt

theorem refl : x.OnlyAt g p x := ⟨fun _ _ => rfl, fun _ _ => rfl, fun _ _ => rfl⟩

theorem modify (u : FileStatus.Entry → FileStatus.Entry) : x.OnlyAt g p (x.modify p u) :=
  ⟨fun _ hq => (FileStatus.entry_modify ..).trans (if_neg hq), fun _ _ => rfl, fun _ _ => rfl⟩

theorem put (h : x.OnlyAt g p y) (c : Option Str) : x.OnlyAt g p (y.put (g.localPath p) c) :=
  ⟨h.entry, fun l hl => (Disk.content_put_ne hl c y.disk).trans (h.content l hl), h.remote⟩

theorem push (h : x.OnlyAt g p y) (c : Option Str) : x.OnlyAt g p (y.push p c) :=
  ⟨h.entry, h.content, fun q hq => (update_of_ne hq _ _).trans (h.remote q hq)⟩

theorem saved {fPushes : Prop} {iRes : Int} (h : x.Saved g p fPushes iRes y) :
    x.OnlyAt g p y := by
  obtain ⟨c, hdisk, -⟩ := h.disk
  refine ⟨h.other, fun l _ => by rw [hdisk, Disk.content_push], fun q hq => ?_⟩
  rw [hdisk]
  exact update_of_ne hq _ _

end View.OnlyAt

theorem Caller.after_act {e : Event Calls} {a : Act Str Int Str} (h : storeAct e = some a) :
    (s.after e).store = s.store.apply a := by
  rw [after, h]

theorem Caller.after_none {e : Event Calls} (h : storeAct e = none) :
    (s.after e).store = s.store := by
  rw [after, h]

/-- The calls other than those that open and close. -/
theorem Caller.handles_after {e : Event Calls} {c : Prop} [Decidable c] {a : Act Str Int Str}
    (hact : storeAct e = if c then some a else none)
    (ha : (s.store.apply a).handles = s.store.handles) :
    (s.after e).store.handles = s.store.handles := by
  by_cases hc : c
  · rw [after_act (hact.trans (if_pos hc))]
    exact ha
  · rw [after_none (hact.trans (if_neg hc))]

section

variable (hS : Apart g S) (hs : s.paths ⊆ S) (h : Stands g s x)
include hS hs h

theorem obeys_replyOpen {pFi : FileInfo} (hc : s.Allows (.open' p pFi)) :
    ((Callback.open' p pFi).reply g).Obeys (linkedSeen g S) x fun r y =>
      s.Answers ⟨.open' p pFi, r⟩ ∧ Stands g (s.after ⟨.open' p pFi, r⟩) y := by
  obtain ⟨hp, hflags, hclean⟩ := hc
  have hpS := hs hp
  have hholds := h.holds p hp
  refine (obeys_sysCalls (obeys_open hpS hflags hholds.notTruncated hholds.host)).bind ?_
  intro r y hy
  obtain ⟨iRes, fh⟩ := r
  obtain ⟨hstatus, c, hc, hcases⟩ := hy
  have hput := hholds.pulled hclean hc (hS.notLocal p hpS p hpS)
  have honly : x.OnlyAt g p (x.put (g.localPath p) c) := View.OnlyAt.refl.put c
  obtain ⟨hzero, hne, fh, hfh, hfresh, hdisk⟩ | ⟨hne, hdisk⟩ := hcases
  · dsimp only at hzero hfh ⊢
    subst hzero hfh
    obtain rfl : y = (x.put (g.localPath p) c).setHandle fh (some (g.localPath p)) :=
      congrArg₂ View.mk hstatus hdisk
    have hthere : (x.put (g.localPath p) c).disk.content (g.localPath p) ≠ none := by
      rw [View.put, Disk.content_put]
      exact hne
    have hact : storeAct ⟨.open' p pFi, (⟨0, [], some fh⟩ : Reply)⟩ = some (.opened p fh) := rfl
    refine Program.obeys_pure ⟨fun _ => ⟨?_, fh, rfl, ?_⟩, h.update hS hs hpS
      ⟨honly.entry, honly.content, honly.remote⟩ (fun fh' q hq => ?_) fun _ => ?_⟩
    · obtain ⟨b, hb, -⟩ := hput.exists_copy hthere
      rw [hb]
      exact Option.some_ne_none b
    · by_contra hused
      obtain ⟨q, hq⟩ := Option.ne_none_iff_exists'.mp hused
      cases hfresh.symm.trans (h.handle fh q hq)
    · rw [Caller.after_act hact] at hq
      obtain ⟨rfl, rfl⟩ | ⟨hf, hq⟩ := Store.handles_opened hq
      · exact update_self ..
      · exact (update_of_ne hf _ _).trans (h.handle fh' q hq)
    · rw [Caller.after_act hact]
      exact (hput.openedAt hthere fh _).mono fun hr => Or.inr ⟨hr, id⟩
  · obtain rfl : y = x.put (g.localPath p) c := congrArg₂ View.mk hstatus hdisk
    have hnone : storeAct ⟨.open' p pFi, (⟨iRes, [], fh⟩ : Reply)⟩ = none := if_neg hne
    refine Program.obeys_pure ⟨fun hzero => absurd hzero hne, h.update hS hs hpS honly
      (fun fh' q hq => ?_) fun _ => ?_⟩
    · rw [Caller.after_none hnone] at hq
      exact h.handle fh' q hq
    · rw [Caller.after_none hnone]
      exact hput.mono fun hr => Or.inr ⟨hr, id⟩

theorem obeys_replyRead {iSize : Nat} {iOffset : Int} {pFi : FileInfo}
    (hc : s.Allows (.read p iSize iOffset pFi)) :
    ((Callback.read p iSize iOffset pFi).reply g).Obeys (linkedSeen g S) x fun r y =>
      s.Answers ⟨.read p iSize iOffset pFi, r⟩ ∧
        Stands g (s.after ⟨.read p iSize iOffset pFi, r⟩) y := by
  obtain ⟨hp, hfh⟩ := hc
  have hpS := hs hp
  have hholds := h.holds p hp
  have hthere := hholds.opened pFi.fh hfh
  obtain ⟨c, hcontent, hlocal⟩ := hholds.exists_copy hthere
  refine (obeys_read hpS (h.handle pFi.fh p hfh) hlocal).bind fun r y hy => ?_
  obtain ⟨iRes, pcBuf⟩ := r
  obtain ⟨rfl, hdata⟩ := hy
  refine Program.obeys_pure ⟨fun hok => ⟨c, hcontent, hdata hok⟩, h.update hS hs hpS
    (View.OnlyAt.modify _) (fun fh q hq => h.handle fh q hq) fun _ => ?_⟩
  exact hholds.marked hthere fun hno => absurd (Or.inl rfl) hno

theorem obeys_replyWrite {pcBuf : Str} {iOffset : Int} {pFi : FileInfo}
    (hc : s.Allows (.write p pcBuf iOffset pFi)) :
    ((Callback.write p pcBuf iOffset pFi).reply g).Obeys (linkedSeen g S) x fun r y =>
      s.Answers ⟨.write p pcBuf iOffset pFi, r⟩ ∧
        Stands g (s.after ⟨.write p pcBuf iOffset pFi, r⟩) y := by
  obtain ⟨hp, hfh⟩ := hc
  have hpS := hs hp
  have hholds := h.holds p hp
  have hthere := hholds.opened pFi.fh hfh
  obtain ⟨c, hcontent, hlocal⟩ := hholds.exists_copy hthere
  refine (obeys_write hpS (h.handle pFi.fh p hfh) hlocal).bind fun iRes y hy => ?_
  have hmarked : Holds g p (x.modify p (·.setPendingOpen true true)) s.store
      (p ∈ (s.after ⟨.write p pcBuf iOffset pFi, (⟨iRes, [], none⟩ : Reply)⟩).readSince) :=
    hholds.marked hthere fun _ => rfl
  have honly : x.OnlyAt g p (x.modify p (·.setPendingOpen true true)) := View.OnlyAt.modify _
  obtain ⟨hok, rfl⟩ | ⟨hfail, rfl⟩ := hy
  · have hact : storeAct ⟨.write p pcBuf iOffset pFi, (⟨iRes, [], none⟩ : Reply)⟩ =
        some (.edited p (splice (pcBuf.take iRes.toNat) iOffset)) := if_pos hok
    refine Program.obeys_pure ⟨trivial, h.update hS hs hpS (honly.put _) (fun fh q hq => ?_)
      fun _ => ?_⟩
    · rw [Caller.after_act hact] at hq
      exact h.handle fh q hq
    · rw [Caller.after_act hact]
      have hentry : (x.modify p (·.setPendingOpen true true)).status.entry p =
          (x.status.entry p).setPendingOpen true true :=
        (FileStatus.entry_modify ..).trans (if_pos rfl)
      refine hmarked.written hcontent _ ?_ ?_ (hS.notLocal p hpS p hpS) <;> rw [hentry] <;> rfl
  · have hnone : storeAct ⟨.write p pcBuf iOffset pFi, (⟨iRes, [], none⟩ : Reply)⟩ = none :=
      if_neg (Int.not_le.mpr hfail)
    refine Program.obeys_pure ⟨trivial, h.update hS hs hpS honly (fun fh q hq => ?_) fun _ => ?_⟩
    · rw [Caller.after_none hnone] at hq
      exact h.handle fh q hq
    · rw [Caller.after_none hnone]
      exact hmarked

/-- A flush and an fsync save the path, or it is given up. -/
theorem Stands.saved {c : Callback} {pFi : FileInfo} (hc : c = .flush p pFi ∨ c = .fsync p pFi)
    (hp : p ∈ s.paths) {fPushes : Prop} {iRes : Int} (hsaved : x.Saved g p fPushes iRes y)
    (hcopy : fPushes → (x.status.entry p).m_fPendingOpen = true)
    (hclean : ¬ fPushes → s.store.unsaved p = none) :
    Stands g (s.after ⟨c, (⟨iRes, [], none⟩ : Reply)⟩) y := by
  have hholds := h.holds p hp
  have hpath : c.path = p := by rcases hc with rfl | rfl <;> rfl
  have hsends : c.Sends p := by rcases hc with rfl | rfl <;> rfl
  have hact : storeAct ⟨c, (⟨iRes, [], none⟩ : Reply)⟩ =
      if iRes = 0 then some (.saved p) else none := by rcases hc with rfl | rfl <;> rfl
  have hread : p ∈ s.readSince →
      p ∈ (s.after ⟨c, (⟨iRes, [], none⟩ : Reply)⟩).readSince := by
    rcases hc with rfl | rfl <;> exact fun hr => Or.inr ⟨hr, id⟩
  have hhandles : (s.after ⟨c, (⟨iRes, [], none⟩ : Reply)⟩).store.handles = s.store.handles :=
    Caller.handles_after hact rfl
  refine h.update hS hs (e := ⟨c, _⟩) ?_ ?_ (fun fh q hq => ?_) fun hpaths => ?_
  · rw [hpath]
    exact hs hp
  · rw [hpath]
    exact View.OnlyAt.saved hsaved
  · obtain ⟨b, hdisk, -⟩ := hsaved.disk
    rw [hdisk]
    rw [hhandles] at hq
    exact h.handle fh q hq
  · rw [hpath] at hpaths ⊢
    have hzero : iRes = 0 := by
      by_contra hne
      exact hpaths.2 ⟨hsends, hne⟩
    subst hzero
    rw [Caller.after_act (hact.trans (if_pos rfl))]
    refine (hholds.saved hsaved (fun hpushes => ?_) hclean).mono hread
    exact hholds.pending (hcopy hpushes)

theorem obeys_replyFlush {pFi : FileInfo} (hc : s.Allows (.flush p pFi)) :
    ((Callback.flush p pFi).reply g).Obeys (linkedSeen g S) x fun r y =>
      s.Answers ⟨.flush p pFi, r⟩ ∧ Stands g (s.after ⟨.flush p pFi, r⟩) y := by
  obtain ⟨hp, hmarked⟩ := hc
  have hholds := h.holds p hp
  refine (obeys_flush (hs hp) hholds.notRenamed).bind fun iRes y hy => ?_
  refine Program.obeys_pure ⟨trivial, h.saved hS hs (Or.inl rfl) hp hy (fun hyes => hyes.1) ?_⟩
  -- changes that are not saved have both marks, unless a read has taken one away
  intro hmarks
  by_contra hne
  obtain ⟨hpending, hwrite⟩ := hholds.unsaved hne
  exact hmarks ⟨hpending, hwrite (hmarked.resolve_left hne)⟩

theorem obeys_replyFsync {pFi : FileInfo} (hc : s.Allows (.fsync p pFi)) :
    ((Callback.fsync p pFi).reply g).Obeys (linkedSeen g S) x fun r y =>
      s.Answers ⟨.fsync p pFi, r⟩ ∧ Stands g (s.after ⟨.fsync p pFi, r⟩) y := by
  have hholds := h.holds p hc
  refine (obeys_fsync (hs hc)).bind fun iRes y hy => ?_
  refine Program.obeys_pure ⟨trivial, h.saved hS hs (Or.inr rfl) hc hy id fun hmarks => ?_⟩
  by_contra hne
  exact hmarks (hholds.unsaved hne).1

theorem obeys_replyRelease {pFi : FileInfo} (hc : s.Allows (.release p pFi)) :
    ((Callback.release p pFi).reply g).Obeys (linkedSeen g S) x fun r y =>
      s.Answers ⟨.release p pFi, r⟩ ∧ Stands g (s.after ⟨.release p pFi, r⟩) y := by
  obtain ⟨hp, hfh, hclean⟩ := hc
  have hpS := hs hp
  have hopen : x.disk.handle pFi.fh ≠ none := by
    rw [h.handle pFi.fh p hfh]
    exact Option.some_ne_none _
  refine (obeys_release hpS hopen).bind fun iRes y hy => ?_
  obtain ⟨hother, hentry, hdisk⟩ := hy
  have hact : storeAct ⟨.release p pFi, (⟨iRes, [], none⟩ : Reply)⟩ =
    some (.closed pFi.fh) := rfl
  have honly : x.OnlyAt g p y := by
    rcases hdisk with hdisk | hdisk
    · exact ⟨hother, fun l _ => by rw [hdisk], fun q _ => by rw [hdisk]⟩
    · exact ⟨hother, fun l _ => by rw [hdisk]; rfl, fun q _ => by rw [hdisk]; rfl⟩
  refine Program.obeys_pure ⟨trivial, h.update hS hs hpS honly (fun fh q hq => ?_) fun _ => ?_⟩
  · rw [Caller.after_act hact] at hq
    obtain ⟨hf, hq⟩ := Store.handles_closed hq
    have hold := h.handle fh q hq
    rcases hdisk with hdisk | hdisk <;> rw [hdisk]
    · exact hold
    · exact (update_of_ne hf _ _).trans hold
  · rw [Caller.after_act hact]
    exact ((h.holds p hp).closed hclean hentry hdisk).mono fun hr => Or.inr ⟨hr, id⟩

theorem obeys_replyMknod {mode rdev : Nat} (hc : s.Allows (.mknod p mode rdev)) :
    ((Callback.mknod p mode rdev).reply g).Obeys (linkedSeen g S) x fun r y =>
      s.Answers ⟨.mknod p mode rdev, r⟩ ∧ Stands g (s.after ⟨.mknod p mode rdev, r⟩) y := by
  obtain ⟨hp, hmode⟩ := hc
  have hpS := hs hp
  refine (obeys_mknod rdev hpS hmode).bind fun iRes y hy => ?_
  obtain ⟨hstatus, hcases⟩ := hy
  have hact : storeAct ⟨.mknod p mode rdev, (⟨iRes, [], none⟩ : Reply)⟩ =
    if iRes = 0 then some (.created p []) else none := rfl
  have hhandles : (s.after ⟨.mknod p mode rdev, (⟨iRes, [], none⟩ : Reply)⟩).store.handles =
      s.store.handles := Caller.handles_after hact rfl
  have hzero : p ∈ (s.after ⟨.mknod p mode rdev, (⟨iRes, [], none⟩ : Reply)⟩).paths → iRes = 0 := by
    intro hpaths
    by_contra hne
    exact hpaths.2 ⟨rfl, hne⟩
  obtain ⟨hne, hdisk⟩ | ⟨hnone, c, hdisk, hc⟩ := hcases
  · obtain rfl : y = x := congrArg₂ View.mk hstatus hdisk
    refine Program.obeys_pure ⟨trivial, h.update hS hs hpS View.OnlyAt.refl (fun fh q hq => ?_)
      fun hpaths => absurd (hzero hpaths) hne⟩
    rw [hhandles] at hq
    exact h.handle fh q hq
  · obtain rfl : y = (x.put (g.localPath p) (some [])).push p c := congrArg₂ View.mk hstatus hdisk
    refine Program.obeys_pure ⟨trivial, h.update hS hs hpS
      ((View.OnlyAt.refl.put _).push _) (fun fh q hq => ?_) fun hpaths => ?_⟩
    · rw [hhandles] at hq
      exact h.handle fh q hq
    · have hres := hzero hpaths
      rw [Caller.after_act (hact.trans (if_pos hres)), hc hres]
      exact ((h.holds p hp).created hnone (hS.notLocal p hpS p hpS)).mono
        fun hr => Or.inr ⟨hr, id⟩

omit hS hs in
theorem obeys_replyAsks {c : Callback} (hc : c.Asks) :
    (c.reply g).Obeys (linkedSeen g S) x fun r y =>
      s.Answers ⟨c, r⟩ ∧ Stands g (s.after ⟨c, r⟩) y := by
  have hget : ∀ p, Sys.Op.Asks (.cacheGet .stat p) := fun _ => trivial
  have hput : ∀ p o, Sys.Op.Asks (.cachePut .stat p o) := fun _ _ => trivial
  have hstat : ∀ p, Sys.Op.Asks (.shell (.stat p)) := fun _ => trivial
  have hprogram : (c.program g).Obeys (linkedSeen g S) x fun _ y => y = x := by
    cases c with
    | getattr p =>
      refine (obeys_sysCalls (obeys_asks (uses_getattr hget hput (hstat p)))).bind fun _ y hy => ?_
      exact Program.obeys_pure hy
    | access p iMask =>
      exact obeys_sysCalls (obeys_access p iMask)
    | readlink p iSize =>
      have huses : (adbnc_readlink p iSize).Uses (S := Sys) Sys.Op.Asks :=
        uses_readlink trivial (fun _ => trivial) trivial iSize
      exact (obeys_sysCalls (obeys_asks huses)).bind fun _ y hy => Program.obeys_pure hy
    | _ => exact hc.elim
  have hasks : (c.reply g).Obeys (linkedSeen g S) x fun _ y => y = x := by
    cases c with
    | getattr | access | readlink => exact hprogram.bind fun _ y hy => Program.obeys_pure hy
    | _ => exact hc.elim
  refine hasks.mono fun r y hy => ?_
  subst hy
  obtain ⟨hanswers, hafter⟩ : s.Answers ⟨c, r⟩ ∧ s.after ⟨c, r⟩ = s := by
    cases c with
    | getattr | access | readlink =>
      refine ⟨trivial, ?_⟩
      rw [Caller.after]
      simp [Callback.Sends, Callback.Reads, Callback.Writes, storeAct]
    | _ => exact hc.elim
  rw [hafter]
  exact ⟨hanswers, h⟩

/-- Each allowed call. -/
theorem obeys_reply {c : Callback} (hc : s.Allows c) :
    (c.reply g).Obeys (linkedSeen g S) x fun r y =>
      ∃ t, onStore.next s c r t ∧ t.paths ⊆ S ∧ Stands g t y := by
  have hstore : (c.reply g).Obeys (linkedSeen g S) x fun r y =>
      s.Answers ⟨c, r⟩ ∧ Stands g (s.after ⟨c, r⟩) y := by
    cases c with
    | open' p pFi => exact obeys_replyOpen hS hs h hc
    | read p iSize iOffset pFi => exact obeys_replyRead hS hs h hc
    | write p pcBuf iOffset pFi => exact obeys_replyWrite hS hs h hc
    | flush p pFi => exact obeys_replyFlush hS hs h hc
    | fsync p pFi => exact obeys_replyFsync hS hs h hc
    | release p pFi => exact obeys_replyRelease hS hs h hc
    | mknod p mode rdev => exact obeys_replyMknod hS hs h hc
    | _ => exact obeys_replyAsks h hc
  exact hstore.mono fun r y hy => ⟨_, ⟨hy.1, rfl⟩, fun p hp => hs hp.1, hy.2⟩

end

/-! ## Clients -/

/-- A client with the code of the callbacks in the place of its calls. -/
def served (g : Globals) {α : Type} (client : Program Calls α) : Program Sys α :=
  client.expand fun c : Callback => link g (c.reply g)

/-- Whatever a client does that keeps to its store, it gets the answers of the store. -/
theorem obeys_served (hS : Apart g S) (hs : s.paths ⊆ S) (h : Stands g s x) {α : Type}
    {client : Program Calls α} {Q : α → Caller → Prop} (hclient : client.Obeys onStore s Q) :
    (served g client).Obeys (seen g S) x fun a y =>
      ∃ es t, client.Path es a ∧ onStore.Follows s es t ∧ Q a t ∧ t.paths ⊆ S ∧ Stands g t y :=
  hclient.refine (R := fun s x => s.paths ⊆ S ∧ Stands g s x)
    (fun _ _ _ hrel hc => obeys_link (obeys_reply hS hrel.1 hrel.2 hc)) ⟨hs, h⟩

end AdbncFs
