import Mathlib.Data.Set.Lattice
import AdbncFs.Contents.Views

/-!
# Callers that share the program

Callers with paths of their own share `FileStatus`, the disk and the caches. What each one sees is
right about its paths (`View.Agrees`), and its operations change nothing that belongs to another one
(`View.Changes`). So they all keep to what they see, in whatever order their operations are done
(`exec_seen`).
-/

namespace AdbncFs

open Text Interaction Function

variable {g : Globals} {S T : Set Str} {x y z : View} {p : Str}

/-- The paths have local copies of their own, and the local host has no files of these
names. -/
structure Apart (g : Globals) (S : Set Str) : Prop where
  injOn : ∀ p ∈ S, ∀ q ∈ S, g.localPath p = g.localPath q → p = q
  notLocal : ∀ p ∈ S, ∀ q ∈ S, g.localPath p ≠ q

theorem Apart.mono (h : Apart g T) (hST : S ⊆ T) : Apart g S :=
  ⟨fun p hp q hq => h.injOn p (hST hp) q (hST hq),
    fun p hp q hq => h.notLocal p (hST hp) q (hST hq)⟩

namespace View

/-- What is seen of these paths, and of the handles that are open on them, is there. -/
structure Agrees (g : Globals) (S : Set Str) (x y : View) : Prop where
  status : ∀ p ∈ S, y.status p = x.status p
  copy : ∀ p ∈ S, y.disk.content (g.localPath p) = x.disk.content (g.localPath p)
  host : ∀ p ∈ S, y.disk.content p = x.disk.content p
  remote : ∀ p ∈ S, y.disk.remote p = x.disk.remote p
  handle : ∀ fh l, x.disk.handle fh = some l →
    y.disk.handle fh = some l ∧ ∃ p ∈ S, l = g.localPath p

/-- Only what belongs to these paths has changed. -/
structure Changes (g : Globals) (S : Set Str) (x y : View) : Prop where
  status : ∀ p ∉ S, y.status p = x.status p
  content : ∀ l, (∀ p ∈ S, l ≠ g.localPath p) → y.disk.content l = x.disk.content l
  remote : ∀ p ∉ S, y.disk.remote p = x.disk.remote p
  handle : ∀ fh l, x.disk.handle fh = some l → (∀ p ∈ S, l ≠ g.localPath p) →
    y.disk.handle fh = some l

/-- What another caller changes is not seen. -/
theorem Agrees.changes (hT : Apart g T) {R : Set Str} (hS : S ⊆ T) (hR : R ⊆ T)
    (hdisj : ∀ p ∈ S, p ∉ R) (h : x.Agrees g S y) (hc : y.Changes g R z) : x.Agrees g S z where
  status p hp := (hc.status p (hdisj p hp)).trans (h.status p hp)
  copy p hp := by
    refine (hc.content _ fun q hq heq => ?_).trans (h.copy p hp)
    obtain rfl := hT.injOn p (hS hp) q (hR hq) heq
    exact hdisj _ hp hq
  host p hp := (hc.content p fun q hq heq =>
    hT.notLocal q (hR hq) p (hS hp) heq.symm).trans (h.host p hp)
  remote p hp := (hc.remote p (hdisj p hp)).trans (h.remote p hp)
  handle fh l hl := by
    obtain ⟨hfh, p, hp, rfl⟩ := h.handle fh l hl
    refine ⟨hc.handle fh _ hfh fun q hq heq => ?_, p, hp, rfl⟩
    obtain rfl := hT.injOn p (hS hp) q (hR hq) heq
    exact hdisj _ hp hq

/-! ## Changes to what is seen -/

theorem Changes.refl : x.Changes g S x :=
  ⟨fun _ _ => rfl, fun _ _ => rfl, fun _ _ => rfl, fun _ _ h _ => h⟩

/-- What is seen stays right, and nothing that belongs to others has changed. -/
structure Keeps (g : Globals) (S : Set Str) (y x' y' : View) : Prop where
  agrees : x'.Agrees g S y'
  changes : y.Changes g S y'

theorem Agrees.modify (h : x.Agrees g S y) (hp : p ∈ S)
    (u : FileStatus.Entry → FileStatus.Entry) :
    Keeps g S y (x.modify p u) (y.modify p u) where
  agrees := { h with
    status := fun q hq => by
      have hentry : y.status.entry p = x.status.entry p :=
        FileStatus.entry_congr (h.status p hp)
      simp only [View.modify, FileStatus.modify, hentry, update_apply, h.status q hq] }
  changes := { Changes.refl with
    status := fun q hq => update_of_ne (ne_of_mem_of_not_mem hp hq).symm _ _ }

theorem Agrees.put (h : x.Agrees g S y) (hp : p ∈ S) (c : Option Str) :
    Keeps g S y (x.put (g.localPath p) c) (y.put (g.localPath p) c) where
  agrees := { h with
    copy := fun q hq => by
      simp only [View.put, Disk.put, update_apply, h.copy q hq]
    host := fun q hq => by
      simp only [View.put, Disk.put, update_apply, h.host q hq] }
  changes := { Changes.refl with
    content := fun l hl => update_of_ne (hl p hp) _ _ }

theorem Agrees.push (h : x.Agrees g S y) (hp : p ∈ S) (c : Option Str) :
    Keeps g S y (x.push p c) (y.push p c) where
  agrees := { h with
    remote := fun q hq => by
      simp only [View.push, Disk.push, update_apply, h.remote q hq] }
  changes := { Changes.refl with
    remote := fun q hq => update_of_ne (ne_of_mem_of_not_mem hp hq).symm _ _ }

/-- A handle that is not in use is opened. -/
theorem Agrees.opened (h : x.Agrees g S y) (hp : p ∈ S) {fh : Int}
    (hfree : y.disk.handle fh = none) :
    Keeps g S y (x.setHandle fh (some (g.localPath p)))
      (y.setHandle fh (some (g.localPath p))) where
  agrees := { h with
    handle := fun fh' l hl => by
      by_cases hfh : fh' = fh
      · subst hfh
        simp only [View.setHandle, Disk.setHandle, update_self, Option.some.injEq] at hl ⊢
        exact ⟨hl, p, hp, hl.symm⟩
      · simp only [View.setHandle, Disk.setHandle, update_of_ne hfh] at hl ⊢
        exact h.handle fh' l hl }
  changes := { Changes.refl with
    handle := fun fh' l hl _ => by
      refine (update_of_ne ?_ _ _).trans hl
      rintro rfl
      cases hfree.symm.trans hl }

/-- A handle that is in use is closed, and may be given to somebody else. -/
theorem Agrees.closed (h : x.Agrees g S y) {fh : Int} (hused : x.disk.handle fh ≠ none)
    (l : Option Str) : Keeps g S y (x.setHandle fh none) (y.setHandle fh l) where
  agrees := { h with
    handle := fun fh' m hm => by
      by_cases hfh : fh' = fh
      · subst hfh
        simp only [View.setHandle, Disk.setHandle, update_self] at hm
        cases hm
      · simp only [View.setHandle, Disk.setHandle, update_of_ne hfh] at hm ⊢
        exact h.handle fh' m hm }
  changes := { Changes.refl with
    handle := fun fh' m hm hother => by
      refine (update_of_ne ?_ _ _).trans hm
      rintro rfl
      obtain ⟨k, hk⟩ := Option.ne_none_iff_exists'.mp hused
      obtain ⟨hm', p, hp, rfl⟩ := h.handle fh' k hk
      cases hm.symm.trans hm'
      exact hother p hp rfl }

end View

/-! ## One operation -/

variable {ε : Type} {env : Env ε} (v : DiskView env) {w : World ε}

/-- What there is. -/
def DiskView.view (v : DiskView env) (w : World ε) : View := ⟨w.fileStatus, v.disk w.env⟩

theorem adbArgv_inj {fPush fPush' : Bool} {l l' r r' : Str}
    (h : adbArgv fPush l r = adbArgv fPush' l' r') : fPush = fPush' ∧ l = l' ∧ r = r' := by
  cases fPush <;> cases fPush' <;> simp_all [adbArgv]

/-- An operation whose answer tells nothing, and that changes nothing there. -/
theorem View.Agrees.same (h : x.Agrees g S (v.view w)) {w' : World ε}
    (hstatus : w'.fileStatus = w.fileStatus) (hdisk : v.disk w'.env = v.disk w.env) :
    View.Keeps g S (v.view w) x (v.view w') := by
  have hview : v.view w' = v.view w := congrArg₂ View.mk hstatus hdisk
  rw [hview]
  exact ⟨h, Changes.refl⟩

/-- A handle that is seen, with the content of its file. -/
theorem View.Agrees.handle_content (h : x.Agrees g S y) {fh : Int} {l c : Str}
    (hl : x.disk.handle fh = some l) (hc : x.disk.content l = some c) :
    y.disk.handle fh = some l ∧ y.disk.content l = some c ∧ ∃ p ∈ S, l = g.localPath p := by
  obtain ⟨hfh, p, hp, rfl⟩ := h.handle fh l hl
  exact ⟨hfh, (h.copy p hp).trans hc, p, hp, rfl⟩

theorem DiskView.syscall_seen (h : x.Agrees g S (v.view w)) {call : Syscall}
    (hcall : call.Mine g S x) :
    ∃ d, call.Tells S (env.syscall call w.env).1 x.disk d ∧
      View.Keeps g S (v.view w) ⟨x.status, d⟩
        (v.view { w with env := (env.syscall call w.env).2 }) := by
  have hsame : v.disk (env.syscall call w.env).2 = v.disk w.env →
      View.Keeps g S (v.view w) x (v.view { w with env := (env.syscall call w.env).2 }) :=
    fun hdisk => h.same v rfl hdisk
  have hview : ∀ {e : ε} {d : Disk}, v.disk e = d →
      v.view { w with env := e } = ⟨w.fileStatus, d⟩ :=
    fun hdisk => congrArg (View.mk w.fileStatus) hdisk
  cases call with
  | stat path =>
    refine ⟨x.disk, ⟨rfl, fun hp => ?_⟩, hsame (v.stat_disk path w.env)⟩
    rw [← h.host path hp]
    exact v.stat_gives path w.env
  | fsync fd => exact ⟨x.disk, ⟨rfl, v.fsync_gives fd w.env⟩, hsame (v.fsync_disk fd w.env)⟩
  | open' path flags =>
    obtain ⟨⟨p, hp, rfl⟩, hplain⟩ := hcall
    have hgives := v.open_gives (g.localPath p) ⟨-1, flags⟩ w.env hplain
    dsimp only [Syscall.Tells] at hgives ⊢
    generalize (env.syscall (.open' (g.localPath p) flags) w.env).1 = r at hgives ⊢
    cases r with
    | ok fh =>
      obtain ⟨hcontent, hfree, hdisk⟩ := hgives
      refine ⟨x.disk.setHandle fh (some (g.localPath p)), ⟨?_, ?_, rfl⟩, ?_⟩
      · rw [← h.copy p hp]
        exact hcontent
      · by_contra hused
        obtain ⟨l, hl⟩ := Option.ne_none_iff_exists'.mp hused
        cases hfree.symm.trans (h.handle fh l hl).1
      · rw [hview hdisk]
        exact h.opened hp hfree
    | error errno => exact ⟨x.disk, ⟨hgives.1, rfl⟩, hsame hgives.2⟩
  | close fd =>
    obtain ⟨l, hdisk⟩ := v.close_disk fd w.env
    refine ⟨x.disk.setHandle fd none, rfl, ?_⟩
    rw [hview hdisk]
    exact h.closed hcall l
  | pread fd n off =>
    refine ⟨x.disk, ⟨rfl, fun l c hl hc => ?_⟩, hsame (v.pread_disk fd n off w.env)⟩
    obtain ⟨hfh, hcontent, -⟩ := h.handle_content hl hc
    exact v.pread_gives fd n off w.env l c hfh hcontent
  | pwrite fd data off =>
    obtain ⟨l, c, hl, hc⟩ := hcall
    obtain ⟨hfh, hcontent, p, hp, rfl⟩ := h.handle_content hl hc
    have hgives := v.pwrite_gives fd data off w.env _ c hfh hcontent
    have hunique : ∀ l' c', x.disk.handle fd = some l' → x.disk.content l' = some c' →
        l' = g.localPath p ∧ c' = c := by
      intro l' c' hl' hc'
      obtain rfl := Option.some.inj (hl'.symm.trans hl)
      exact ⟨rfl, Option.some.inj (hc'.symm.trans hc)⟩
    dsimp only [Syscall.Tells] at hgives ⊢
    generalize (env.syscall (.pwrite fd data off) w.env).1 = r at hgives ⊢
    cases r with
    | ok k =>
      obtain ⟨hk, hdisk⟩ := hgives
      refine ⟨x.disk.put (g.localPath p) (some (splice (data.take k.toNat) off c)),
        fun l' c' hl' hc' => ?_, ?_⟩
      · obtain ⟨rfl, rfl⟩ := hunique l' c' hl' hc'
        exact ⟨hk, rfl⟩
      · rw [hview hdisk]
        exact h.put hp _
    | error errno => exact ⟨x.disk, fun _ _ _ _ => ⟨hgives.1, rfl⟩, hsame hgives.2⟩
  | mknod path mode rdev =>
    obtain ⟨⟨p, hp, rfl⟩, hmode⟩ := hcall
    have hgives := v.mknod_gives (g.localPath p) mode rdev w.env hmode
    dsimp only [Syscall.Tells] at hgives ⊢
    generalize (env.syscall (.mknod (g.localPath p) mode rdev) w.env).1 = r at hgives ⊢
    cases r with
    | ok n =>
      obtain ⟨hnone, hdisk⟩ := hgives
      refine ⟨x.disk.put (g.localPath p) (some []), ⟨?_, rfl⟩, ?_⟩
      · rw [← h.copy p hp]
        exact hnone
      · rw [hview hdisk]
        exact h.put hp _
    | error errno => exact ⟨x.disk, ⟨hgives.1, rfl⟩, hsame hgives.2⟩
  | truncate | unlink => exact hcall.elim

/-- A transfer of a file of its own. -/
theorem DiskView.spawn_seen (h : x.Agrees g S (v.view w)) (hp : p ∈ S) (fPush : Bool) :
    let argv := adbArgv fPush (g.localPath p) p
    ∃ x', (seen g S).next x (.spawn argv true) (env.spawn argv true w.env).1 x' ∧
      View.Keeps g S (v.view w) x' (v.view { w with env := (env.spawn argv true w.env).2 }) := by
  have hcopy : (v.disk w.env).content (g.localPath p) = x.disk.content (g.localPath p) :=
    h.copy p hp
  have hview : ∀ {e : ε} {d : Disk}, v.disk e = d →
      v.view { w with env := e } = ⟨w.fileStatus, d⟩ :=
    fun hdisk => congrArg (View.mk w.fileStatus) hdisk
  have hremote : (v.disk w.env).remote p = x.disk.remote p := h.remote p hp
  dsimp only
  cases fPush with
  | false =>
    obtain ⟨c, hdisk, hc⟩ := v.pull_disk (g.localPath p) p w.env
    refine ⟨x.put (g.localPath p) c, ⟨rfl, fun q hq => ⟨fun hargv => ?_, fun hargv => ?_⟩⟩, ?_⟩
    · obtain ⟨-, -, rfl⟩ := adbArgv_inj hargv
      rw [hcopy, hremote] at hc
      refine ⟨c, rfl, hc, fun hdone => ?_⟩
      have hpulled := hdisk.symm.trans (v.pull_ok (g.localPath p) p w.env hdone)
      have hcontent :
          c = ((v.disk w.env).remote p).or ((v.disk w.env).content (g.localPath p)) := by
        rw [← Disk.content_put (g.localPath p) c (v.disk w.env), hpulled, Disk.content_put]
      rw [hcontent, hcopy, hremote]
    · exact Bool.noConfusion (adbArgv_inj hargv).1
    · rw [hview hdisk]
      exact h.put hp c
  | true =>
    obtain ⟨c, hdisk⟩ := v.push_disk (g.localPath p) p w.env
    refine ⟨x.push p c, ⟨rfl, fun q hq => ⟨fun hargv => ?_, fun hargv => ?_⟩⟩, ?_⟩
    · exact Bool.noConfusion (adbArgv_inj hargv).1
    · obtain ⟨-, -, rfl⟩ := adbArgv_inj hargv
      refine ⟨c, rfl, fun b hdone hb => ?_⟩
      have hpushed := hdisk.symm.trans
        (v.push_ok (g.localPath p) p w.env b (hcopy.trans hb) hdone)
      have hdevice := congrArg (fun d => d.remote p) hpushed
      simpa only [Disk.push, update_self] using hdevice
    · rw [hview hdisk]
      exact h.push hp c

/-- An operation on files of its own does what the caller sees. -/
theorem DiskView.seen_step (h : x.Agrees g S (v.view w)) {op : Sys.Op}
    (hop : (seen g S).allows x op) :
    ∃ x', (seen g S).next x op (env.handle op w).1 x' ∧
      View.Keeps g S (v.view w) x' (v.view (env.handle op w).2) := by
  cases op with
  | cacheGet k p => exact ⟨x, rfl, h.same v rfl (v.time_disk w.env)⟩
  | cachePut k p o => exact ⟨x, rfl, h.same v rfl (v.time_disk w.env)⟩
  | invalidate p => exact ⟨x, rfl, h.same v rfl rfl⟩
  | fileStatus => exact ⟨x, ⟨rfl, fun p hp => h.status p hp⟩, h.same v rfl rfl⟩
  | setFileStatus f =>
    obtain ⟨p, hp, u, rfl⟩ := hop
    exact ⟨x.modify p u, rfl, h.modify hp u⟩
  | shell command => exact ⟨x, rfl, h.same v rfl (v.asks_disk command w.env hop)⟩
  | spawn argv fUseStdErr =>
    obtain ⟨rfl, fPush, p, hp, rfl⟩ := hop
    exact v.spawn_seen h hp fPush
  | syscall call =>
    obtain ⟨d, htells, hkeeps⟩ := v.syscall_seen h hop
    exact ⟨⟨x.status, d⟩, ⟨rfl, htells⟩, hkeeps⟩

/-! ## Every interleaving -/

variable {α ι : Type} {S : ι → Set Str} {w' : World ε}

/-- What each caller sees is right, and of the device nothing else has changed. -/
structure Shared (v : DiskView env) (g : Globals) (S : ι → Set Str) (w : World ε) (x : ι → View)
    (w' : World ε) : Prop where
  agrees : ∀ i, (x i).Agrees g (S i) (v.view w')
  others : ∀ p ∉ ⋃ i, S i, (v.disk w'.env).remote p = (v.disk w.env).remote p

variable [DecidableEq ι] (hS : Apart g (⋃ i, S i))
  (hdisj : Pairwise fun i j => ∀ p ∈ S i, p ∉ S j)
include hS hdisj

/-- One of the callers does an operation. -/
theorem Shared.step {x : ι → View} (h : Shared v g S w x w') {i : ι} {op : Sys.Op}
    (hop : (seen g (S i)).allows (x i) op) :
    ∃ t, (seen g (S i)).next (x i) op (env.handle op w').1 t ∧
      Shared v g S w (update x i t) (env.handle op w').2 := by
  have hsub : ∀ i, S i ⊆ ⋃ i, S i := Set.subset_iUnion S
  obtain ⟨t, hnext, hkeeps⟩ := v.seen_step (h.agrees i) hop
  refine ⟨t, hnext, fun j => ?_, fun p hp => ?_⟩
  · by_cases hj : j = i
    · subst hj
      rw [update_self]
      exact hkeeps.agrees
    · rw [update_of_ne hj]
      exact (h.agrees j).changes hS (hsub j) (hsub i) (hdisj hj) hkeeps.changes
  · exact (hkeeps.changes.remote p fun hpi => hp (hsub i hpi)).trans (h.others p hp)

/-- Callers with paths of their own keep to what they see, in every interleaving of their
operations. -/
theorem exec_seen {programs : ι → Program Sys α} {x : ι → View} {Q : ι → α → View → Prop}
    (hx : ∀ i, (x i).Agrees g (S i) (v.view w))
    (hprograms : ∀ i, (programs i).Obeys (seen g (S i)) (x i) (Q i)) (is : List ι) :
    let c := (Pool.exec env.handle is ⟨programs, w⟩).2
    ∃ y : ι → View, Shared v g S w y c.shared ∧
      ∀ i, (c.threads i).Obeys (seen g (S i)) (y i) (Q i) := by
  obtain ⟨y, hshared, hobeys, -⟩ := Pool.exec_obeys (fun i => seen g (S i)) (Shared v g S w)
    (fun x w' i op h hop => h.step v hS hdisj hop) is (c := ⟨programs, w⟩)
    ⟨hx, fun _ _ => rfl⟩ hprograms
  exact ⟨y, hshared, hobeys⟩

end AdbncFs
