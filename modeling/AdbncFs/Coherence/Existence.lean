import AdbncFs.Device.TreeDevice

/-!
# The attribute cache and the existence of files

The device is a directory tree that only the callbacks change. `doStat_iff_exists` says that
after a run the answer of `doStat` agrees with the tree, provided no rename and no mknod of
the run changed the existence of a third path that the cache could still answer for; the
other callbacks never do. A rename of a directory changes the existence of all paths below
it, and invalidates none of them.
-/

namespace AdbncFs

open Text Interaction FileTree

/-- A call that asks for or changes the tree, over normalized paths. -/
inductive TreeCall
  | mkdir (p : DevPath)
  | rmdir (p : DevPath)
  | mknod (p : DevPath) (mode rdev : Nat)
  | unlink (p : DevPath)
  | rename (a b : DevPath)
  | getattr (p : DevPath)
  | access (p : DevPath) (iMask : Nat)

def TreeCall.callback : TreeCall → Callback
  | mkdir p => .mkdir p.str
  | rmdir p => .rmdir p.str
  | mknod p mode rdev => .mknod p.str mode rdev
  | unlink p => .unlink p.str
  | rename a b => .rename a.str b.str
  | getattr p => .getattr p.str
  | access p iMask => .access p.str iMask

/-- The paths that a call names. -/
def TreeCall.names : TreeCall → List DevPath
  | mkdir p | rmdir p | mknod p _ _ | unlink p | getattr p | access p _ => [p]
  | rename a b => [a, b]

namespace TreeDevice

variable (d : TreeDevice) (g : Globals)

/-- The cache can still answer for `p`, now or at a later reading of the clock. -/
def MayServe (w : World TreeState) (p : DevPath) : Prop :=
  ∃ n o, w.env.ops ≤ n ∧ w.fileCache.getStat p.str (d.clock n) = some o

/-- What the cache can answer for `p` agrees with the tree. -/
def Agrees (w : World TreeState) (p : DevPath) : Prop :=
  ∀ n o, w.env.ops ≤ n → w.fileCache.getStat p.str (d.clock n) = some o →
    (o ≠ [] ↔ has w.env.tree p = true)

def step (d : TreeDevice) (g : Globals) (c : TreeCall) (w : World TreeState) :
    Outcome × World TreeState := c.callback.step d.env g w

/-- The call changes the existence of no path other than those it names for which the cache
can still answer. -/
def Quiet (w : World TreeState) (c : TreeCall) : Prop :=
  ∀ q, q ∉ c.names → d.MayServe w q → has (d.step g c w).2.env.tree q = has w.env.tree q

variable {d g}

theorem Agrees.mono {w w' : World TreeState} {p : DevPath} (h : d.Agrees w p)
    (hcache : w'.fileCache p.str = w.fileCache p.str) (hops : w.env.ops ≤ w'.env.ops)
    (htree : d.MayServe w p → has w'.env.tree p = has w.env.tree p) : d.Agrees w' p := by
  intro n o hn ho
  have ho' : w.fileCache.getStat p.str (d.clock n) = some o :=
    (FileCache.get_congr hcache _).symm.trans ho
  rw [htree ⟨n, o, hops.trans hn, ho'⟩]
  exact h n o (hops.trans hn) ho'

theorem agrees_of_none {w : World TreeState} {p : DevPath} (h : w.fileCache p.str = none) :
    d.Agrees w p := by
  intro n o _ ho
  obtain ⟨it, hit, -⟩ := FileCache.get_eq_some.mp ho
  rw [h] at hit
  cases hit

/-! ## Asking -/

theorem statOutput_agrees (s : Str) (w : World TreeState) :
    let r := (statOutput s).run d.env.handle w
    r.2.env.tree = w.env.tree ∧ w.env.ops ≤ r.2.env.ops ∧
      (∀ q : DevPath, q.str ≠ s → r.2.fileCache q.str = w.fileCache q.str) ∧
      ∀ q : DevPath, q.str = s → d.Agrees w q →
        (r.1 ≠ [] ↔ has w.env.tree q = true) ∧ d.Agrees r.2 q := by
  rw [run_statOutput]
  cases h : w.fileCache.getStat s (d.env.time w.env).1 with
  | some o =>
    refine ⟨rfl, Nat.le_succ _, fun q _ => rfl, ?_⟩
    rintro q rfl hq
    exact ⟨hq w.env.ops o le_rfl h, hq.mono rfl (Nat.le_succ _) fun _ => rfl⟩
  | none =>
    refine ⟨rfl, ?_, fun q hq => FileCache.put_of_ne hq, ?_⟩
    · exact (Nat.le_succ _).trans (Nat.le_succ _)
    · rintro q rfl -
      have hreply : (d.env.shell (.stat q.str) (d.env.time w.env).2).1 = d.reply w.env.tree q := by
        change ((DevPath.ofStr q.str).map (d.reply w.env.tree)).getD [] = _
        rw [DevPath.ofStr_str]
        rfl
      have hiff := d.reply_ne_nil w.env.tree q
      refine ⟨by rw [← hiff, ← hreply], fun n o _ ho => ?_⟩
      rcases FileCache.get_put_eq_some ho with ⟨-, rfl⟩ | ⟨hne, -⟩
      · rw [hreply]
        exact hiff
      · exact absurd rfl hne

theorem statOutput_keeps {s : Str} {w : World TreeState} {q : DevPath} (h : d.Agrees w q) :
    d.Agrees ((statOutput s).run d.env.handle w).2 q := by
  obtain ⟨htree, hops, hother, hself⟩ := d.statOutput_agrees s w
  by_cases hq : q.str = s
  · exact (hself q hq h).2
  · exact h.mono (hother q hq) hops fun _ => by rw [htree]

/-! ## Changing -/

/-- A call that changes the existence of `p` only, and leaves no entry for `p`. -/
theorem agrees_change {w w' : World TreeState} {p : DevPath} (hw : ∀ q, d.Agrees w q)
    (hp : w'.fileCache p.str = none)
    (hcache : ∀ q, q ≠ p → w'.fileCache q.str = w.fileCache q.str)
    (hops : w.env.ops ≤ w'.env.ops)
    (htree : ∀ q, q ≠ p → d.MayServe w q → has w'.env.tree q = has w.env.tree q) :
    ∀ q, d.Agrees w' q := by
  intro q
  by_cases hq : q = p
  · subst hq
    exact agrees_of_none hp
  · exact (hw q).mono (hcache q hq) hops (htree q hq)

theorem invalidate_str_of_ne {c : FileCache} {p q : DevPath} (h : q ≠ p) :
    (c.invalidate p.str) q.str = c q.str :=
  FileCache.invalidate_of_ne fun hs => h (DevPath.str_inj hs)

theorem has_apply {t : DirTree Name} {c : Command} {t' : DirTree Name} {q : DevPath}
    (h : has t' q = has t q) : has (if d.refuses t c then t else t') q = has t q := by
  split
  · rfl
  · exact h

/-- Invalidating `p` and running a command that changes the existence of `p` only. -/
theorem command_agrees {w w' : World TreeState} (hw : ∀ q, d.Agrees w q) {p : DevPath}
    {c : Command} (hcache : w'.fileCache = w.fileCache.invalidate p.str)
    (hops : w.env.ops ≤ w'.env.ops)
    (htree : w'.env.tree = if d.refuses w.env.tree c then w.env.tree else apply w.env.tree c)
    (hframe : ∀ q, q ≠ p → has (apply w.env.tree c) q = has w.env.tree q) :
    ∀ q, d.Agrees w' q := by
  refine agrees_change (p := p) hw ?_ (fun q hq => ?_) hops fun q hq _ => ?_
  · rw [hcache, FileCache.invalidate_self]
  · rw [hcache, invalidate_str_of_ne hq]
  · rw [htree]
    exact has_apply (hframe q hq)

theorem has_apply_mkdir {t : DirTree Name} {p q : DevPath} (hq : q ≠ p) :
    has (apply t (.mkdir p.str)) q = has t q := by
  rw [apply, DevPath.ofStr_str]
  exact has_mkdir hq

theorem has_apply_rmdir {t : DirTree Name} {p q : DevPath} (hq : q ≠ p) :
    has (apply t (.rmdir p.str)) q = has t q := by
  rw [apply, DevPath.ofStr_str]
  exact has_rmdir hq

theorem has_apply_rm {t : DirTree Name} {p q : DevPath} (hq : q ≠ p) :
    has (apply t (.rm p.str)) q = has t q := by
  rw [apply, DevPath.ofStr_str]
  exact has_rm hq

theorem mkdir_agrees {w : World TreeState} (hw : ∀ q, d.Agrees w q) (p : DevPath) :
    ∀ q, d.Agrees ((Callback.mkdir p.str).step d.env g w).2 q :=
  command_agrees hw rfl le_rfl rfl fun _ hq => has_apply_mkdir hq

theorem rmdir_agrees {w : World TreeState} (hw : ∀ q, d.Agrees w q) (p : DevPath) :
    ∀ q, d.Agrees ((Callback.rmdir p.str).step d.env g w).2 q :=
  command_agrees hw rfl le_rfl rfl fun _ hq => has_apply_rmdir hq

theorem unlink_agrees {w : World TreeState} (hw : ∀ q, d.Agrees w q) (p : DevPath) :
    ∀ q, d.Agrees ((Callback.unlink p.str).step d.env g w).2 q :=
  command_agrees hw rfl (Nat.le_succ _) rfl fun _ hq => has_apply_rm hq

theorem rename_world (a b : Str) (w : World TreeState) :
    ((Callback.rename a b).step d.env g w).2.fileCache =
        (w.fileCache.invalidate b).invalidate a ∧
      ((Callback.rename a b).step d.env g w).2.env = (d.env.shell (.mv a b) w.env).2 := by
  simp only [Callback.step, Callback.program, adbnc_rename, Program.run_bind, run_liftM,
    run_adbncShell, run_invalidate, run_fileStatus, Program.run_ite, run_setFileStatus,
    Program.run_pure]
  split <;> exact ⟨rfl, rfl⟩

theorem rename_agrees {w : World TreeState} (hw : ∀ q, d.Agrees w q) {a b : DevPath}
    (hquiet : d.Quiet g w (.rename a b)) :
    ∀ q, d.Agrees ((Callback.rename a.str b.str).step d.env g w).2 q := by
  obtain ⟨hcache, henv⟩ := rename_world (d := d) (g := g) a.str b.str w
  intro q
  by_cases ha : q = a
  · subst ha
    exact agrees_of_none (by rw [hcache, FileCache.invalidate_self])
  · by_cases hb : q = b
    · subst hb
      exact agrees_of_none (by rw [hcache, invalidate_str_of_ne ha, FileCache.invalidate_self])
    · have hnames : q ∉ (TreeCall.rename a b).names := by
        simp only [TreeCall.names, List.mem_cons, List.not_mem_nil, or_false, not_or]
        exact ⟨ha, hb⟩
      refine (hw q).mono ?_ ?_ fun hserve => hquiet q hnames hserve
      · rw [hcache, invalidate_str_of_ne ha, invalidate_str_of_ne hb]
      · rw [henv]
        exact le_rfl

/-- The world `w₁` between the two parts of a push, the test of the parent and the transfer:
the transfer happens only if the parent is there. -/
theorem push_world {w : World TreeState} (hw : ∀ q, d.Agrees w q) (l : Str) (p : DevPath) :
    let w' := ((adbncPushPullCmd g true l p.str).run d.env.handle w).2
    ∃ w₁ : World TreeState, (∀ q, d.Agrees w₁ q) ∧ w₁.env.tree = w.env.tree ∧
      w.env.ops ≤ w₁.env.ops ∧
      (∀ q : DevPath, q ≠ p.dropLast → w₁.fileCache q.str = w.fileCache q.str) ∧
      (w' = w₁ ∨ has w.env.tree p.dropLast = true ∧
        w' = { w₁ with env := { w₁.env with tree := d.pushed w.env.tree l p.str } }) := by
  obtain ⟨htree, hops, hother, hself⟩ := d.statOutput_agrees (parent p.str) w
  have hkeep := fun q => d.statOutput_keeps (s := parent p.str) (hw q)
  rw [DevPath.parent_str] at htree hops hother hself hkeep
  dsimp only
  rw [run_adbncPushPullCmd, if_pos rfl, if_pos rfl, DevPath.parent_str, run_access]
  generalize (statOutput (DevPath.str p.dropLast)).run d.env.handle w = r at *
  refine ⟨r.2, hkeep, htree, hops, fun q hq => hother q fun hs => hq (DevPath.str_inj hs), ?_⟩
  dsimp only
  split
  · rename_i hres
    have hhas := ((hself p.dropLast rfl (hw _)).1).mp (statResult_ne_nil (checkAccess_zero g hres))
    refine Or.inr ⟨hhas, ?_⟩
    rw [← htree]
    rfl
  · exact Or.inl rfl

theorem has_pushed {t : DirTree Name} {q : DevPath} (l r : Str) (h : has t q = true) :
    has (d.pushed t l r) q = true := by
  unfold pushed
  split
  · split
    · exact h
    · exact has_push _ h
  · exact h

/-- `adbnc_mknod` fails on the local host, or pushes and then invalidates. -/
theorem mknod_world (p : Str) (mode rdev : Nat) (w : World TreeState) :
    let w₀ : World TreeState := { w with env := { w.env with ops := w.env.ops + 1 } }
    let w₂ := ((adbncPushPullCmd g true (g.localPath p) p).run d.env.handle w₀).2
    let w' := ((Callback.mknod p mode rdev).step d.env g w).2
    w' = w₀ ∨ w'.fileCache = w₂.fileCache.invalidate p ∧ w'.env.tree = w₂.env.tree ∧
      w'.env.ops = w₂.env.ops := by
  dsimp only
  simp only [Callback.step, Callback.program, adbnc_mknod, Program.run_bind, run_liftM,
    run_syscall]
  cases (d.env.syscall (.mknod (g.localPath p) mode rdev) w.env).1 with
  | error errno => exact Or.inl rfl
  | ok v =>
    refine Or.inr ?_
    dsimp only
    rw [Program.run_bind, run_adbncPush]
    have henv : (d.env.syscall (.mknod (g.localPath p) mode rdev) w.env).2 =
        ⟨w.env.tree, w.env.ops + 1⟩ := rfl
    rw [henv]
    generalize (adbncPushPullCmd g true (g.localPath p) p).run d.env.handle
      ⟨w.fileCache, w.fileStatus, ⟨w.env.tree, w.env.ops + 1⟩⟩ = r
    dsimp only
    rw [Program.run_ite]
    split
    · exact ⟨rfl, ite_self _, rfl⟩
    · exact ⟨rfl, rfl, rfl⟩

theorem mknod_agrees {w : World TreeState} (hw : ∀ q, d.Agrees w q) {p : DevPath}
    {mode rdev : Nat} (hquiet : d.Quiet g w (.mknod p mode rdev)) :
    ∀ q, d.Agrees ((Callback.mknod p.str mode rdev).step d.env g w).2 q := by
  intro q
  have hw₀ : ∀ q, d.Agrees { w with env := { w.env with ops := w.env.ops + 1 } } q :=
    fun q => (hw q).mono rfl (Nat.le_succ _) fun _ => rfl
  rcases mknod_world (d := d) (g := g) p.str mode rdev w with h | ⟨hcache, htree, hops⟩
  · rw [h]
    exact hw₀ q
  · by_cases hq : q = p
    · subst hq
      exact agrees_of_none (by rw [hcache, FileCache.invalidate_self])
    · obtain ⟨w₁, hw₁, htree₁, hops₁, hcache₁, hpush⟩ :=
        push_world (g := g) hw₀ (g.localPath p.str) p
      refine (hw₁ q).mono (hcache.symm ▸ ?_) ?_ fun hserve => ?_
      · rw [invalidate_str_of_ne hq]
        rcases hpush with h | ⟨-, h⟩ <;> rw [h]
      · rw [hops]
        rcases hpush with h | ⟨-, h⟩ <;> rw [h]
      · by_cases hqp : q = p.dropLast
        · rw [htree]
          rcases hpush with h | ⟨hparent, h⟩
          · rw [h]
          · rw [h, htree₁, hqp]
            exact (has_pushed _ _ hparent).trans hparent.symm
        · obtain ⟨n, o, hn, ho⟩ := hserve
          rw [htree₁]
          refine hquiet q (fun hmem => hq (List.mem_singleton.mp hmem)) ⟨n, o, ?_, ?_⟩
          · exact (Nat.le_succ _).trans (hops₁.trans hn)
          · exact (FileCache.get_congr (hcache₁ q hqp) _).symm.trans ho

/-! ## Runs -/

theorem step_getattr (p : DevPath) (w : World TreeState) :
    (d.step g (.getattr p) w).2 = ((statOutput p.str).run d.env.handle w).2 := by
  simp only [step, TreeCall.callback, Callback.step, Callback.program, Program.run_bind,
    run_liftM, Program.run_pure, adbnc_getattr]

theorem step_access (p : DevPath) (iMask : Nat) (w : World TreeState) :
    (d.step g (.access p iMask) w).2 = ((statOutput p.str).run d.env.handle w).2 := by
  simp only [step, TreeCall.callback, Callback.step, Callback.program, run_liftM, run_access]

/-- A quiet call keeps what the cache can answer in agreement with the tree. -/
theorem step_agrees {w : World TreeState} (hw : ∀ q, d.Agrees w q) {c : TreeCall}
    (hquiet : d.Quiet g w c) : ∀ q, d.Agrees (d.step g c w).2 q := by
  cases c with
  | mkdir p => exact mkdir_agrees hw p
  | rmdir p => exact rmdir_agrees hw p
  | mknod p mode rdev => exact mknod_agrees hw hquiet
  | unlink p => exact unlink_agrees hw p
  | rename a b => exact rename_agrees hw hquiet
  | getattr p =>
    intro q
    rw [step_getattr]
    exact statOutput_keeps (hw q)
  | access p iMask =>
    intro q
    rw [step_access]
    exact statOutput_keeps (hw q)

theorem run_agrees {w : World TreeState} (hempty : w.fileCache = FileCache.empty)
    {cs : List TreeCall}
    (hquiet : ∀ pre c post, cs = pre ++ c :: post → d.Quiet g (final (d.step g) pre w) c) :
    ∀ q, d.Agrees (final (d.step g) cs w) q :=
  final_induct (I := fun w => ∀ q, d.Agrees w q)
    (fun q => agrees_of_none (by rw [hempty]; rfl))
    fun pre c post h hw => step_agrees hw (hquiet pre c post h)

/-- After a run of quiet calls on a device with any tree, `doStat` finds exactly the paths
that exist. -/
theorem doStat_iff_exists {w : World TreeState} (hempty : w.fileCache = FileCache.empty)
    {cs : List TreeCall}
    (hquiet : ∀ pre c post, cs = pre ++ c :: post → d.Quiet g (final (d.step g) pre w) c)
    (p : DevPath) :
    ((doStat p.str false).run d.env.handle (final (d.step g) cs w)).1.1 = 0 ↔
      has (final (d.step g) cs w).env.tree p = true := by
  obtain ⟨-, -, -, hself⟩ := d.statOutput_agrees p.str (final (d.step g) cs w)
  rw [← (hself p rfl (run_agrees hempty hquiet p)).1, doStat, Program.run_bind, Program.run_pure]
  constructor
  · exact statResult_ne_nil
  · intro h
    rw [statResult, if_neg h]
    rfl

/-! ## Which calls are quiet -/

/-- The calls that make or remove one path. -/
theorem quiet_command {w : World TreeState} {c : TreeCall} {p : DevPath} {cmd : Command}
    (hnames : c.names = [p])
    (htree : (d.step g c w).2.env.tree =
      if d.refuses w.env.tree cmd then w.env.tree else apply w.env.tree cmd)
    (hframe : ∀ q, q ≠ p → has (apply w.env.tree cmd) q = has w.env.tree q) : d.Quiet g w c := by
  intro q hq _
  rw [hnames, List.mem_singleton] at hq
  rw [htree]
  exact has_apply (hframe q hq)

theorem quiet_mkdir {w : World TreeState} {p : DevPath} : d.Quiet g w (.mkdir p) :=
  quiet_command rfl rfl fun _ hq => has_apply_mkdir hq

theorem quiet_rmdir {w : World TreeState} {p : DevPath} : d.Quiet g w (.rmdir p) :=
  quiet_command rfl rfl fun _ hq => has_apply_rmdir hq

theorem quiet_unlink {w : World TreeState} {p : DevPath} : d.Quiet g w (.unlink p) :=
  quiet_command rfl rfl fun _ hq => has_apply_rm hq

theorem rename_tree (a b : DevPath) (w : World TreeState) :
    (d.step g (.rename a b) w).2.env.tree =
      if d.refuses w.env.tree (.mv a.str b.str) then w.env.tree else mv w.env.tree a b := by
  have hmv : apply w.env.tree (.mv a.str b.str) = mv w.env.tree a b := by
    simp only [apply, DevPath.ofStr_str]
    rfl
  rw [← hmv]
  exact congrArg TreeState.tree (rename_world (d := d) (g := g) a.str b.str w).2

/-- A rename that the device refuses is quiet. -/
theorem quiet_rename_refused {w : World TreeState} {a b : DevPath}
    (h : d.refuses w.env.tree (.mv a.str b.str) = true) : d.Quiet g w (.rename a b) := by
  intro q _ _
  rw [rename_tree, if_pos h]

/-- A call that only asks is quiet. -/
theorem quiet_asking {w : World TreeState} {c : TreeCall}
    (h : (∃ p, c = .getattr p) ∨ ∃ p iMask, c = .access p iMask) : d.Quiet g w c := by
  intro q _ _
  have htree : (d.step g c w).2.env.tree = w.env.tree := by
    rcases h with ⟨p, rfl⟩ | ⟨p, iMask, rfl⟩
    · rw [step_getattr]
      exact (d.statOutput_agrees p.str w).1
    · rw [step_access]
      exact (d.statOutput_agrees p.str w).1
  rw [htree]

/-- Renaming a path with nothing below it, not into a directory, is quiet. -/
theorem quiet_rename_bare {w : World TreeState} {a b : DevPath}
    (ha : bare w.env.tree a = true) (hb : get w.env.tree b ≠ some .dir) :
    d.Quiet g w (.rename a b) := by
  intro q hq _
  simp only [TreeCall.names, List.mem_cons, List.not_mem_nil, or_false, not_or] at hq
  rw [rename_tree]
  split
  · rfl
  · exact has_mv ha hb hq.1 hq.2

/-- The tree after a push: as it was, or with what the push makes of it. -/
theorem push_tree (l : Str) (p : DevPath) (w : World TreeState) :
    ((adbncPushPullCmd g true l p.str).run d.env.handle w).2.env.tree = w.env.tree ∨
      ((adbncPushPullCmd g true l p.str).run d.env.handle w).2.env.tree =
        d.pushed w.env.tree l p.str := by
  have htree := (d.statOutput_agrees (parent p.str) w).1
  rw [run_adbncPushPullCmd, if_pos rfl, if_pos rfl, run_access]
  dsimp only at htree ⊢
  rw [← htree]
  split
  · exact Or.inr rfl
  · exact Or.inl rfl

/-- Making a file is quiet, unless its path is a directory. -/
theorem quiet_mknod {w : World TreeState} {p : DevPath} {mode rdev : Nat}
    (habove : ∀ q, q <+: p.dropLast → has w.env.tree q = true)
    (hp : get w.env.tree p ≠ some .dir) : d.Quiet g w (.mknod p mode rdev) := by
  intro q hq _
  have hqp : q ≠ p := fun hsame => hq (List.mem_singleton.mpr hsame)
  have hpushed : has (d.pushed w.env.tree (g.localPath p.str) p.str) q = has w.env.tree q := by
    unfold pushed
    rw [DevPath.ofStr_str]
    cases Name.ofStr (baseName (g.localPath p.str)) with
    | none => rfl
    | some n =>
      dsimp only
      split
      · rfl
      · exact has_push_of_not_dir n hp habove hqp
  have hstep : (d.step g (.mknod p mode rdev) w).2 =
      ((Callback.mknod p.str mode rdev).step d.env g w).2 := rfl
  rw [hstep]
  rcases mknod_world (d := d) (g := g) p.str mode rdev w with h | ⟨-, htree, -⟩
  · rw [h]
  · rw [htree]
    rcases push_tree (d := d) (g := g) (g.localPath p.str) p
      { w with env := { w.env with ops := w.env.ops + 1 } } with h | h
    · rw [h]
    · rw [h]
      exact hpushed

end TreeDevice

/-! ## A renamed directory -/

def nameD : Name := ⟨['d'], by decide, by decide, by decide, by decide, by decide⟩

def nameE : Name := ⟨['e'], by decide, by decide, by decide, by decide, by decide⟩

def nameF : Name := ⟨['f'], by decide, by decide, by decide, by decide, by decide⟩

/-- A device that carries out each command, seen within one second. -/
def exampleDevice : TreeDevice where
  clock _ := 0
  reply t p := if has t p then [p.str ++ " 4 8 81b6 0 0 b301 17 1 0 0 1 1 1 4096".toList] else []
  reply_ne_nil t p := by cases has t p <;> simp
  refuses _ _ := false
  refusesPush _ _ := false
  adb _ _ := some ([], 0)
  syscall
    | .stat _, _ | .open' _ _, _ | .close _, _ | .fsync _, _ | .pwrite _ _ _, _ => .ok 0
    | .truncate _ _, _ | .mknod _ _ _, _ | .unlink _, _ => .ok 0
    | .pread _ _ _, _ => .ok []

/-- The directory `/d` with the file `/d/f`. -/
def treeStart : World TreeState :=
  ⟨FileCache.empty, FileStatus.empty, [([nameD], .dir), ([nameD, nameF], .file)], 0⟩

theorem doStat_unlinked :
    ((doStat (DevPath.str [nameD, nameF]) false).run exampleDevice.env.handle
        (final (exampleDevice.step exampleGlobals)
          [.getattr [nameD, nameF], .unlink [nameD, nameF]] treeStart)).1.1 = 0 ↔
      has (final (exampleDevice.step exampleGlobals)
        [.getattr [nameD, nameF], .unlink [nameD, nameF]] treeStart).env.tree
          [nameD, nameF] = true := by
  refine TreeDevice.doStat_iff_exists rfl (fun pre c post h => ?_) [nameD, nameF]
  rcases pre with _ | ⟨x, _ | ⟨y, pre⟩⟩
  · cases h
    exact TreeDevice.quiet_asking (.inl ⟨_, rfl⟩)
  · cases h
    exact TreeDevice.quiet_unlink
  · cases pre <;> cases h

/-- The attributes of `/d/f` are asked for and `/d` is renamed to `/e`: `doStat` still finds
`/d/f`. -/
theorem renamed_directory_found :
    ¬ (((doStat (DevPath.str [nameD, nameF]) false).run exampleDevice.env.handle
        (final (exampleDevice.step exampleGlobals)
          [.getattr [nameD, nameF], .rename [nameD] [nameE]] treeStart)).1.1 = 0 ↔
      has (final (exampleDevice.step exampleGlobals)
        [.getattr [nameD, nameF], .rename [nameD] [nameE]] treeStart).env.tree
          [nameD, nameF] = true) := by
  decide +kernel

end AdbncFs
