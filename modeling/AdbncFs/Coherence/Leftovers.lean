import AdbncFs.Names.Normalized
import AdbncFs.Writes.Opening

/-!
# Local files left over

`adbnc_mknod` makes the local copy of a new file first, and fails where there is a local file
of that name already. It can create every path that is absent on the device as long as the
temporary directory holds no copies of absent paths. `mknod_never_eexist_iff` says which calls
keep it so: the callbacks do not see to it that a copy goes away with its path.
-/

namespace AdbncFs

open Text Interaction Function

/-- The names of the local files, and the paths that exist on the device. -/
structure TempFiles where
  hasFile : Str → Bool
  onDevice : DevPath → Bool

/-- What the operations do to these, on a local host and a device that nobody else uses. -/
structure TempView {ε : Type} (env : Env ε) where
  temp : ε → TempFiles
  time_temp : ∀ e, temp (env.time e).2 = temp e
  stat_temp : ∀ p e, temp (env.shell (.stat p) e).2 = temp e
  sync_temp : ∀ e, temp (env.shell .sync e).2 = temp e
  found_temp : ∀ l e, temp (env.syscall (.stat l) e).2 = temp e
  open_temp : ∀ l (pFi : FileInfo) e, pFi.Plain →
    temp (env.syscall (.open' l pFi.flags) e).2 = temp e
  close_temp : ∀ fd e, temp (env.syscall (.close fd) e).2 = temp e
  mv_hasFile : ∀ p q e, (temp (env.shell (.mv p q) e).2).hasFile = (temp e).hasFile
  rm_hasFile : ∀ p e, (temp (env.shell (.rm p) e).2).hasFile = (temp e).hasFile
  unlink_mono : ∀ l e l', (temp (env.syscall (.unlink l) e).2).hasFile l' = true →
    (temp e).hasFile l' = true
  /-- `mknod` does not replace a file. -/
  mknod_eexist : ∀ l e, (∃ mode rdev, (env.syscall (.mknod l mode rdev) e).1 = .error EEXIST) ↔
    (temp e).hasFile l = true
  mknod_onDevice : ∀ l mode rdev e,
    (temp (env.syscall (.mknod l mode rdev) e).2).onDevice = (temp e).onDevice
  mknod_other : ∀ l mode rdev e l', l' ≠ l →
    (temp (env.syscall (.mknod l mode rdev) e).2).hasFile l' = (temp e).hasFile l'
  mknod_ok : ∀ l mode rdev e r, (env.syscall (.mknod l mode rdev) e).1 = .ok r →
    (temp (env.syscall (.mknod l mode rdev) e).2).hasFile l = true
  mknod_error : ∀ l mode rdev e errno, (env.syscall (.mknod l mode rdev) e).1 = .error errno →
    temp (env.syscall (.mknod l mode rdev) e).2 = temp e
  push_hasFile : ∀ l p e,
    (temp (env.spawn (adbArgv true l p) true e).2).hasFile = (temp e).hasFile
  push_mono : ∀ l p e x, (temp e).onDevice x = true →
    (temp (env.spawn (adbArgv true l p) true e).2).onDevice x = true
  pull_onDevice : ∀ l p e,
    (temp (env.spawn (adbArgv false l p) true e).2).onDevice = (temp e).onDevice
  pull_other : ∀ l p e l', l' ≠ l →
    (temp (env.spawn (adbArgv false l p) true e).2).hasFile l' = (temp e).hasFile l'
  /-- `adb pull` makes its destination only from a path that exists. -/
  pull_makes : ∀ l p e, (temp (env.spawn (adbArgv false l p) true e).2).hasFile l = true →
    (temp e).hasFile l = true ∨ ∀ x : DevPath, x.str = p → (temp e).onDevice x = true

/-! ## Results -/

theorem statResult_fst (fTokens : Bool) (o : Output) :
    (statResult fTokens o).1 = 0 ∨ (statResult fTokens o).1 = -ENOENT := by
  unfold statResult
  split
  · exact Or.inr rfl
  · split
    · dsimp only
      split
      · exact Or.inr rfl
      · exact Or.inl rfl
    · exact Or.inl rfl

theorem access_ne_eexist (u : UserInfo) (iUid iGid : Int) (uiRawMode iMask : Nat) :
    - u.access iUid iGid uiRawMode iMask ≠ - EEXIST := by
  simp only [UserInfo.access, UserInfo.testAccesss]
  split_ifs <;> decide

theorem checkAccess_ne_eexist (g : Globals) (p : Str) (iMask : Nat) (fTokens : Bool)
    (o : Output) (tokens : List Str) :
    checkAccess g p iMask (statResult fTokens o).1 tokens ≠ - EEXIST := by
  unfold checkAccess
  split
  · split
    · decide
    · rcases statResult_fst fTokens o with h | h <;> rw [h] <;> decide
  · split
    · decide
    · split
      · split
        · decide
        · split
          · exact access_ne_eexist _ _ _ _ _
          · dsimp only
            split_ifs
            · exact access_ne_eexist _ _ _ _ _
            · decide
            · decide
            · decide
      · decide

theorem execLoop_ne_eexist (fUseStdErr : Bool) (stream : Str) :
    (execProg.loop fUseStdErr stream).2.getD 0 ≠ - EEXIST := by
  have hzero : (0 : Int) ≠ - EEXIST := by decide
  have hdenied : -EACCES ≠ - EEXIST := by decide
  have hmissing : -ENOENT ≠ - EEXIST := by decide
  induction stream using execProg.loop.induct fUseStdErr with
  | case1 stream hline =>
    rw [execProg.loop]
    split
    · exact hzero
    · rename_i h
      exact nomatch hline.symm.trans h
  | case2 stream line rest hline h =>
    rw [execProg.loop]
    split
    · exact hzero
    · rename_i h'
      cases hline.symm.trans h'
      rw [if_pos h]
      exact hdenied
  | case3 stream line rest hline h₁ h₂ =>
    rw [execProg.loop]
    split
    · exact hzero
    · rename_i h'
      cases hline.symm.trans h'
      rw [if_neg h₁, if_pos h₂]
      exact hmissing
  | case4 stream line rest hline h₁ h₂ ih =>
    rw [execProg.loop]
    split
    · exact hzero
    · rename_i h'
      cases hline.symm.trans h'
      rw [if_neg h₁, if_neg h₂]
      exact ih

theorem execProg_ne_eexist {ε : Type} (env : Env ε) (argv : List Str) (fUseStdErr : Bool)
    (w : World ε) : ((execProg argv fUseStdErr).run env.handle w).1.2.getD 0 ≠ - EEXIST := by
  have hspawn : (spawn argv fUseStdErr).run env.handle w =
      ((env.spawn argv fUseStdErr w.env).1,
        { w with env := (env.spawn argv fUseStdErr w.env).2 }) := rfl
  rw [execProg, Program.run_bind, hspawn]
  have hspawned : - EIO ≠ - EEXIST := by decide
  have hexited : ENOENT ≠ - EEXIST := by decide
  cases (env.spawn argv fUseStdErr w.env).1 with
  | none => exact hspawned
  | some r =>
    have hloop := execLoop_ne_eexist fUseStdErr r.1
    dsimp only
    split
    · rename_i hexit
      rw [Program.run_pure, hexit.2]
      exact hexited
    · exact hloop

theorem push_ne_eexist {ε : Type} (env : Env ε) (g : Globals) (l r : Str) (w : World ε) :
    ((adbncPushPullCmd g true l r).run env.handle w).1 ≠ - EEXIST := by
  rw [adbncPushPullCmd, if_pos rfl, if_pos rfl, Program.run_bind, run_access]
  dsimp only
  rw [Program.run_ite]
  split
  · rw [Program.run_bind]
    exact execProg_ne_eexist env _ _ _
  · exact checkAccess_ne_eexist g _ _ _ _ _

/-- The callbacks a path is opened, created, renamed and removed with. -/
def Callback.ChangesPaths : Callback → Prop
  | open' _ pFi => pFi.Plain
  | release .. | mknod .. | rename .. | unlink .. => True
  | _ => False

section

variable {ε : Type}

/-! ## Transfers -/

/-- What `adb` leaves of the environment when it transfers `p`, if the access check lets it. -/
def transferred (env : Env ε) (g : Globals) (fPush : Bool) (p : Str) (w : World ε) : Option ε :=
  let a := (adbnc_access g (if fPush then parent p else p)
    (if fPush then W_OK else R_OK)).run env.handle w
  if a.1 = 0 then some (env.spawn (adbArgv fPush (g.localPath p) p) true a.2.env).2 else none

/-- What `adb` leaves of it when `adbnc_open` pulls `p`: the path is not marked as truncated,
the device has it, and `fileExists` finds no file. -/
def pulled (env : Env ε) (g : Globals) (p : Str) (w : World ε) : Option ε :=
  let s := (doStat p false).run env.handle w
  let f := (fileExists p).run env.handle s.2
  if w.fileStatus.truncated p = false ∧ s.1.1 = 0 ∧ f.1 = false then
    transferred env g false p f.2
  else none

variable {env : Env ε} (v : TempView env) (g : Globals)

namespace TempView

def hasCopy (w : World ε) (p : Str) : Prop := (v.temp w.env).hasFile (g.localPath p) = true

def present (w : World ε) (x : DevPath) : Prop := (v.temp w.env).onDevice x = true

/-- `adb` leaves `x` on the device when it pushes the local copy of `p`. -/
def Pushed (p : Str) (w : World ε) (x : DevPath) : Prop :=
  ∃ e, transferred env g true p w = some e ∧ (v.temp e).onDevice x = true

/-- `adb` leaves a local copy of `p` when `adbnc_open` pulls it. -/
def Pulled (p : Str) (w : World ε) : Prop :=
  ∃ e, pulled env g p w = some e ∧ (v.temp e).hasFile (g.localPath p) = true

/-- No path that is absent on the device has a local copy. -/
def NoLeftover (w : World ε) : Prop := ∀ x : DevPath, v.hasCopy g w x.str → v.present w x

/-! ## What the callbacks do to the files -/

theorem temp_statOutput (p : Str) (w : World ε) :
    v.temp ((statOutput p).run env.handle w).2.env = v.temp w.env := by
  rw [run_statOutput]
  cases w.fileCache.getStat p (env.time w.env).1 with
  | some o => exact v.time_temp _
  | none => exact (v.time_temp _).trans ((v.stat_temp _ _).trans (v.time_temp _))

theorem temp_doStat (p : Str) (fTokens : Bool) (w : World ε) :
    v.temp ((doStat p fTokens).run env.handle w).2.env = v.temp w.env := by
  rw [doStat, Program.run_bind, Program.run_pure]
  exact v.temp_statOutput p w

theorem temp_access (p : Str) (iMask : Nat) (w : World ε) :
    v.temp ((adbnc_access g p iMask).run env.handle w).2.env = v.temp w.env := by
  rw [run_access]
  exact v.temp_statOutput p w

/-- A transfer changes the files as `adb` does, or not at all. -/
theorem temp_transfer (fPush : Bool) (p : Str) (w : World ε) :
    v.temp ((adbncPushPullCmd g fPush (g.localPath p) p).run env.handle w).2.env =
      ((transferred env g fPush p w).map v.temp).getD (v.temp w.env) := by
  have haccess := v.temp_access g (if fPush then parent p else p)
    (if fPush then W_OK else R_OK) w
  rw [run_adbncPushPullCmd, transferred]
  generalize (adbnc_access g (if fPush then parent p else p)
    (if fPush then W_OK else R_OK)).run env.handle w = a at *
  dsimp only
  split
  · rfl
  · exact haccess

theorem transferred_env {fPush : Bool} {p : Str} {w : World ε} {e : ε}
    (h : transferred env g fPush p w = some e) :
    ∃ e₁, v.temp e₁ = v.temp w.env ∧
      e = (env.spawn (adbArgv fPush (g.localPath p) p) true e₁).2 := by
  have haccess := v.temp_access g (if fPush then parent p else p)
    (if fPush then W_OK else R_OK) w
  rw [transferred] at h
  generalize (adbnc_access g (if fPush then parent p else p)
    (if fPush then W_OK else R_OK)).run env.handle w = a at *
  split at h
  · exact ⟨_, haccess, (Option.some.inj h).symm⟩
  · cases h

/-- After a push the device has the paths it had, and what the push leaves. -/
theorem temp_push (p : Str) (w : World ε) :
    let w' := ((adbncPushPullCmd g true (g.localPath p) p).run env.handle w).2
    (v.temp w'.env).hasFile = (v.temp w.env).hasFile ∧
      ∀ x, v.present w' x ↔ v.present w x ∨ v.Pushed g p w x := by
  dsimp only
  unfold present Pushed
  rw [v.temp_transfer]
  cases h : transferred env g true p w with
  | none =>
    refine ⟨rfl, fun x => (or_iff_left ?_).symm⟩
    rintro ⟨e, he, -⟩
    cases he
  | some e =>
    obtain ⟨e₁, htemp, rfl⟩ := v.transferred_env g h
    rw [← htemp]
    refine ⟨v.push_hasFile _ _ _, fun x => ⟨fun hx => Or.inr ⟨_, rfl, hx⟩, ?_⟩⟩
    rintro (hx | ⟨e', he', hx⟩)
    · exact v.push_mono _ _ _ x hx
    · cases he'
      exact hx

theorem temp_fileExists (p : Str) (w : World ε) :
    v.temp ((fileExists p).run env.handle w).2.env = v.temp w.env := by
  simp only [fileExists, Program.run_bind, run_syscall]
  cases (env.syscall (.stat p) w.env).1 <;> exact v.found_temp _ _

/-- `adbnc_open` changes the files as the pull does, or not at all. -/
theorem temp_prepareCopy (p : Str) (w : World ε) :
    v.temp ((prepareCopy g p).run env.handle w).2.env =
      ((pulled env g p w).map v.temp).getD (v.temp w.env) := by
  have hstat := v.temp_doStat p false w
  have hfound := v.temp_fileExists p ((doStat p false).run env.handle w).2
  rw [prepareCopy, pulled, Program.run_bind, run_fileStatus, Program.run_ite]
  split
  · rename_i htruncated
    rw [if_neg fun h => absurd (h.1.symm.trans htruncated) Bool.false_ne_true]
    rfl
  rename_i htruncated
  rw [Program.run_bind]
  dsimp only
  rw [Program.run_ite]
  split
  · rename_i hres
    rw [Program.run_bind, Program.run_ite]
    split
    · rename_i hfile
      rw [if_neg fun h => absurd (h.2.2.symm.trans hfile) Bool.false_ne_true]
      exact hfound.trans hstat
    · rename_i hfile
      rw [if_pos ⟨Bool.eq_false_iff.mpr htruncated, hres, Bool.eq_false_iff.mpr hfile⟩, adbncPull,
        v.temp_transfer, hfound, hstat]
  · rename_i hres
    rw [if_neg fun h => hres h.2.1]
    exact hstat

/-- A pull makes at most the local copy of `p`, and only if `p` exists. -/
theorem pulled_env {p : Str} {w : World ε} {e : ε} (h : pulled env g p w = some e) :
    (v.temp e).onDevice = (v.temp w.env).onDevice ∧
      (∀ l, l ≠ g.localPath p → (v.temp e).hasFile l = (v.temp w.env).hasFile l) ∧
      ((v.temp e).hasFile (g.localPath p) = true →
        v.hasCopy g w p ∨ ∀ x : DevPath, x.str = p → v.present w x) := by
  unfold pulled at h
  dsimp only at h
  split at h
  · obtain ⟨e₁, htemp, rfl⟩ := v.transferred_env g h
    have hsame := htemp.trans ((v.temp_fileExists p _).trans (v.temp_doStat p false w))
    unfold hasCopy present
    rw [← hsame]
    exact ⟨v.pull_onDevice _ _ _, v.pull_other _ _ _, v.pull_makes _ _ _⟩
  · cases h

theorem temp_open (p : Str) {pFi : FileInfo} (hflags : pFi.Plain) (w : World ε) :
    v.temp ((Callback.open' p pFi).step env g w).2.env =
      v.temp ((prepareCopy g p).run env.handle w).2.env := by
  rw [open_step]
  dsimp only
  split
  · exact v.open_temp _ _ _ hflags
  · rfl

theorem temp_release (p : Str) (pFi : FileInfo) (w : World ε) :
    v.temp ((Callback.release p pFi).step env g w).2.env = v.temp w.env := by
  rw [Callback.step, Callback.program, run_release]
  cases w.fileStatus p with
  | none => rfl
  | some e =>
    dsimp only
    split
    · exact v.close_temp _ _
    · rfl

theorem temp_rename (p q : Str) (w : World ε) :
    v.temp ((Callback.rename p q).step env g w).2.env = v.temp (env.shell (.mv p q) w.env).2 := by
  simp only [Callback.step, Callback.program, adbnc_rename, Program.run_bind, run_liftM,
    run_adbncShell, run_invalidate, run_fileStatus, Program.run_ite, Program.run_pure,
    run_setFileStatus]
  split <;> rfl

theorem temp_unlink (p : Str) (w : World ε) :
    v.temp ((Callback.unlink p).step env g w).2.env =
      v.temp (env.shell (.rm p) (env.syscall (.unlink (g.localPath p)) w.env).2).2 := by
  simp only [Callback.step, Callback.program, adbnc_unlink, Program.run_bind, run_liftM,
    run_adbncShell, run_invalidate, run_syscall, Program.run_pure]

/-- The local file is not made, or it is made and pushed. -/
theorem mknod_cases (p : Str) (mode rdev : Nat) (w : World ε) :
    let r := env.syscall (.mknod (g.localPath p) mode rdev) w.env
    let s := (Callback.mknod p mode rdev).step env g w
    (∃ errno, r.1 = .error errno ∧ s.1.result = -errno ∧ v.temp s.2.env = v.temp w.env) ∨
      ∃ value, r.1 = .ok value ∧ s.1.result ≠ - EEXIST ∧
        (v.temp s.2.env).hasFile = (v.temp r.2).hasFile ∧
        ∀ x, v.present s.2 x ↔ v.present w x ∨ v.Pushed g p { w with env := r.2 } x := by
  have herror := v.mknod_error (g.localPath p) mode rdev w.env
  have hdevice := v.mknod_onDevice (g.localPath p) mode rdev w.env
  simp only [Callback.step, Callback.program, adbnc_mknod, Program.run_bind, run_liftM,
    run_syscall]
  generalize env.syscall (.mknod (g.localPath p) mode rdev) w.env = r at *
  obtain ⟨answer, e⟩ := r
  cases answer with
  | error errno => exact Or.inl ⟨errno, rfl, rfl, herror errno rfl⟩
  | ok value =>
    refine Or.inr ⟨value, rfl, ?_⟩
    obtain ⟨hfile, hpresent⟩ := v.temp_push g p { w with env := e }
    have hne := push_ne_eexist env g (g.localPath p) p { w with env := e }
    rw [Program.run_bind, run_adbncPush]
    unfold present at hpresent ⊢
    dsimp only at hdevice hfile hpresent ⊢
    rw [← hdevice]
    generalize (adbncPushPullCmd g true (g.localPath p) p).run env.handle
      ⟨w.fileCache, w.fileStatus, e⟩ = pushed at *
    rw [Program.run_ite]
    split
    · simp only [Program.run_bind, run_liftM, run_adbncShell, run_invalidate, Program.run_pure]
      rw [v.sync_temp]
      exact ⟨hne, hfile, hpresent⟩
    · exact ⟨hne, hfile, hpresent⟩

theorem noLeftover_congr {w w' : World ε} (h : v.temp w'.env = v.temp w.env) :
    v.NoLeftover g w' ↔ v.NoLeftover g w := by
  unfold NoLeftover hasCopy present
  rw [h]

/-- Every absent path can be created, as far as local files go. -/
def Creatable (w : World ε) : Prop :=
  ∀ x : DevPath, ¬ v.present w x → ∀ mode rdev,
    ((Callback.mknod x.str mode rdev).step env g w).1.result ≠ - EEXIST

theorem creatable_iff (w : World ε) : v.Creatable g w ↔ v.NoLeftover g w := by
  constructor
  · intro h x hcopy
    by_contra hx
    obtain ⟨mode, rdev, herr⟩ := (v.mknod_eexist _ _).mpr hcopy
    rcases v.mknod_cases g x.str mode rdev w with ⟨errno, hanswer, hres, -⟩ | ⟨r, hanswer, -⟩
    · have herrno : EEXIST = errno := Except.error.inj (herr.symm.trans hanswer)
      exact h x hx mode rdev (herrno ▸ hres)
    · cases herr.symm.trans hanswer
  · intro h x hx mode rdev hres
    rcases v.mknod_cases g x.str mode rdev w with ⟨errno, hanswer, hres', -⟩ | ⟨r, -, hne, -⟩
    · have herrno : errno = EEXIST := Int.neg_inj.mp (hres'.symm.trans hres)
      exact hx (h x ((v.mknod_eexist _ _).mp ⟨mode, rdev, herrno ▸ hanswer⟩))
    · exact hne hres

/-! ## The calls that leave nothing -/

/-- What a call has to meet in the state in which it is made:

* `open`: when the pull leaves a copy that was not there, every other path with the same local
  copy exists;
* `mknod`: when the local file is made, every path with this local copy exists, or the push
  leaves it on the device;
* `rename`: `mv` takes no path away that has a local copy;
* `unlink`: `rm` takes no path away whose local copy stays. -/
def Tidy (w : World ε) : Callback → Prop
  | .open' p _ => ¬ v.hasCopy g w p → v.Pulled g p w →
    ∀ x : DevPath, x.str ≠ p → g.localPath x.str = g.localPath p → v.present w x
  | .mknod p mode rdev =>
    let made := env.syscall (.mknod (g.localPath p) mode rdev) w.env
    (∃ r, made.1 = .ok r) → ∀ x : DevPath, g.localPath x.str = g.localPath p →
      v.present w x ∨ v.Pushed g p { w with env := made.2 } x
  | .rename p q => ∀ x : DevPath, v.hasCopy g w x.str → v.present w x →
    (v.temp (env.shell (.mv p q) w.env).2).onDevice x = true
  | .unlink p =>
    let e := (env.syscall (.unlink (g.localPath p)) w.env).2
    ∀ x : DevPath, (v.temp e).hasFile (g.localPath x.str) = true → v.present w x →
      (v.temp (env.shell (.rm p) e).2).onDevice x = true
  | _ => True

variable {v g}

theorem noLeftover_open {w : World ε} (hw : v.NoLeftover g w) {p : Str} {pFi : FileInfo}
    (hflags : pFi.Plain) :
    v.NoLeftover g ((Callback.open' p pFi).step env g w).2 ↔ v.Tidy g w (.open' p pFi) := by
  have hprepared := (v.temp_open g p hflags w).trans (v.temp_prepareCopy g p w)
  cases hpull : pulled env g p w with
  | none =>
    rw [hpull] at hprepared
    rw [v.noLeftover_congr g hprepared]
    refine iff_of_true hw ?_
    rintro - ⟨e, he, -⟩
    cases hpull.symm.trans he
  | some e =>
    rw [hpull] at hprepared
    obtain ⟨hdevice, hother, hmakes⟩ := v.pulled_env g hpull
    unfold NoLeftover Tidy Pulled hasCopy present at *
    rw [hprepared]
    change (∀ x : DevPath, (v.temp e).hasFile (g.localPath x.str) = true →
      (v.temp e).onDevice x = true) ↔ _
    rw [hdevice]
    constructor
    · rintro h - ⟨e', he', hcopy⟩ x - hx
      cases hpull.symm.trans he'
      exact h x (hx ▸ hcopy)
    · intro h x hcopy
      by_cases hx : g.localPath x.str = g.localPath p
      · rw [hx] at hcopy
        by_cases hold : (v.temp w.env).hasFile (g.localPath p) = true
        · exact hw x (hx ▸ hold)
        · by_cases hp : x.str = p
          · exact (hmakes hcopy).resolve_left hold x hp
          · exact h hold ⟨e, hpull, hcopy⟩ x hp hx
      · exact hw x (hother _ hx ▸ hcopy)

theorem noLeftover_mknod {w : World ε} (hw : v.NoLeftover g w) {p : Str} {mode rdev : Nat} :
    v.NoLeftover g ((Callback.mknod p mode rdev).step env g w).2 ↔
      v.Tidy g w (.mknod p mode rdev) := by
  rcases v.mknod_cases g p mode rdev w with ⟨errno, herr, -, htemp⟩ |
      ⟨r, hok, -, hfile, hpresent⟩
  · rw [v.noLeftover_congr g htemp]
    refine iff_of_true hw fun hr => ?_
    obtain ⟨r, hr⟩ := hr
    cases herr.symm.trans hr
  · constructor
    · intro h _ x hx
      apply (hpresent x).mp
      apply h
      unfold hasCopy
      rw [hfile, hx]
      exact v.mknod_ok _ _ _ _ r hok
    · intro h x hcopy
      apply (hpresent x).mpr
      by_cases hx : g.localPath x.str = g.localPath p
      · exact h ⟨r, hok⟩ x hx
      · refine Or.inl (hw x ?_)
        unfold hasCopy at hcopy ⊢
        rwa [hfile, v.mknod_other _ _ _ _ _ hx] at hcopy

theorem noLeftover_rename {w : World ε} (hw : v.NoLeftover g w) {p q : Str} :
    v.NoLeftover g ((Callback.rename p q).step env g w).2 ↔ v.Tidy g w (.rename p q) := by
  have htemp := v.temp_rename g p q w
  have hfile : ∀ x : DevPath,
      v.hasCopy g ((Callback.rename p q).step env g w).2 x.str ↔ v.hasCopy g w x.str := by
    intro x
    unfold hasCopy
    rw [htemp, v.mv_hasFile]
  unfold NoLeftover Tidy present
  constructor
  · intro h x hcopy _
    rw [← htemp]
    exact h x ((hfile x).mpr hcopy)
  · intro h x hcopy
    rw [htemp]
    exact h x ((hfile x).mp hcopy) (hw x ((hfile x).mp hcopy))

theorem noLeftover_unlink {w : World ε} (hw : v.NoLeftover g w) {p : Str} :
    v.NoLeftover g ((Callback.unlink p).step env g w).2 ↔ v.Tidy g w (.unlink p) := by
  have htemp := v.temp_unlink g p w
  have hmono := v.unlink_mono (g.localPath p) w.env
  unfold NoLeftover Tidy hasCopy present
  dsimp only
  generalize (env.syscall (.unlink (g.localPath p)) w.env).2 = e at *
  rw [htemp, v.rm_hasFile]
  constructor
  · intro h x hfile _
    exact h x hfile
  · intro h x hfile
    exact h x hfile (hw x (hmono _ hfile))

/-- A call leaves no copy of an absent path exactly when it is tidy. -/
theorem noLeftover_step {w : World ε} (hw : v.NoLeftover g w) {c : Callback}
    (hc : c.ChangesPaths) : v.NoLeftover g (c.step env g w).2 ↔ v.Tidy g w c := by
  cases c with
  | open' p pFi => exact noLeftover_open hw hc
  | release p pFi =>
    rw [v.noLeftover_congr g (v.temp_release g p pFi w)]
    exact iff_of_true hw trivial
  | mknod p mode rdev => exact noLeftover_mknod hw
  | rename p q => exact noLeftover_rename hw
  | unlink p => exact noLeftover_unlink hw
  | _ => exact hc.elim

end TempView

open TempView

/-- From an empty temporary directory, every absent path can be created in every state of a
run, if and only if every call of the run is tidy. -/
theorem mknod_never_eexist_iff {cs : List Callback} (hcs : ∀ c ∈ cs, c.ChangesPaths)
    {w : World ε} (hempty : ∀ x : DevPath, ¬ v.hasCopy g w x.str) :
    (∀ pre post, cs = pre ++ post → v.Creatable g (final (Callback.step env g) pre w)) ↔
      ∀ pre c post, cs = pre ++ c :: post →
        v.Tidy g (final (Callback.step env g) pre w) c := by
  simp only [creatable_iff]
  constructor
  · intro h pre c post hsplit
    have hbefore := h pre (c :: post) hsplit
    refine (noLeftover_step hbefore (hcs c (by simp [hsplit]))).mp ?_
    have hafter := h (pre ++ [c]) post (by simp [hsplit])
    rw [final_append] at hafter
    exact hafter
  · intro h pre post hsplit
    refine final_induct (I := v.NoLeftover g) (fun x hcopy => absurd hcopy (hempty x)) ?_
    intro cs₁ c cs₂ hpre hI
    have hcall : cs = cs₁ ++ c :: (cs₂ ++ post) := by simp [hsplit, hpre]
    exact (noLeftover_step hI (hcs c (by simp [hcall]))).mpr (h cs₁ c _ hcall)

end

/-! ## A file renamed and made again -/

/-- The names of the local files and of the paths on the device. -/
structure Saving where
  files : Str → Bool
  device : Str → Bool

namespace Saving

def shell : Command → Saving → Output × Saving
  | .stat p, e => (if e.device p then
      [p ++ " 4 8 81b6 0 0 b301 17 1 0 0 1 1 1 4096".toList] else [], e)
  | .mv p q, e =>
    ([], if e.device p then
      { e with device := update (update e.device p false) q true } else e)
  | .rm p, e => ([], { e with device := update e.device p false })
  | _, e => ([], e)

def spawn (argv : List Str) (e : Saving) : Saving :=
  match argv with
  | [_, cmd, source, destination] =>
    if cmd = "pull".toList then
      { e with files := update e.files destination (e.device source || e.files destination) }
    else
      { e with device := update e.device destination (e.files source || e.device destination) }
  | _ => e

def syscall : (call : Syscall) → Saving → call.Res × Saving
  | .stat l, e => (if e.files l then .ok 0 else .error ENOENT, e)
  | .open' l _, e => (if e.files l then .ok 5 else .error ENOENT, e)
  | .mknod l _ _, e =>
    if e.files l then (.error EEXIST, e) else (.ok 0, { e with files := update e.files l true })
  | .unlink l, e => (.ok 0, { e with files := update e.files l false })
  | call, e => ((Env.obliging.syscall call ()).1, e)

def env : Env Saving where
  time e := (0, e)
  shell := shell
  spawn argv _ e := (some ([], 0), e.spawn argv)
  syscall := syscall

theorem syscall_mknod (l : Str) (mode rdev : Nat) (e : Saving) :
    e.files l = true ∧ env.syscall (.mknod l mode rdev) e = (.error EEXIST, e) ∨
      e.files l = false ∧ env.syscall (.mknod l mode rdev) e =
        (.ok 0, { e with files := update e.files l true }) := by
  cases h : e.files l with
  | true => exact Or.inl ⟨rfl, if_pos h⟩
  | false => exact Or.inr ⟨rfl, if_neg (Bool.eq_false_iff.mp h)⟩

def temp (e : Saving) : TempFiles := ⟨e.files, fun x => e.device x.str⟩

def view : TempView env where
  temp := temp
  time_temp _ := rfl
  stat_temp _ _ := rfl
  sync_temp _ := rfl
  found_temp _ _ := rfl
  open_temp _ _ _ _ := rfl
  close_temp _ _ := rfl
  mv_hasFile p q e := by
    change (if e.device p then { e with device := _ } else e : Saving).files = e.files
    split <;> rfl
  rm_hasFile _ _ := rfl
  unlink_mono l e l' h := by
    change update e.files l false l' = true at h
    by_cases hl : l' = l
    · rw [hl, update_self] at h
      cases h
    · rwa [update_of_ne hl] at h
  mknod_eexist l e := by
    constructor
    · rintro ⟨mode, rdev, h⟩
      rcases syscall_mknod l mode rdev e with ⟨hfile, -⟩ | ⟨-, hok⟩
      · exact hfile
      · cases (congrArg Prod.fst hok).symm.trans h
    · intro hfile
      have herr : env.syscall (.mknod l 0 0) e = (.error EEXIST, e) := if_pos hfile
      exact ⟨0, 0, congrArg Prod.fst herr⟩
  mknod_onDevice l mode rdev e := by
    rcases syscall_mknod l mode rdev e with ⟨-, h⟩ | ⟨-, h⟩
    · rw [h]
    · rw [h]
      rfl
  mknod_other l mode rdev e l' hl := by
    rcases syscall_mknod l mode rdev e with ⟨-, h⟩ | ⟨-, h⟩
    · rw [h]
    · rw [h]
      exact update_of_ne hl true e.files
  mknod_ok l mode rdev e r hr := by
    rcases syscall_mknod l mode rdev e with ⟨-, h⟩ | ⟨-, h⟩
    · rw [h] at hr
      cases hr
    · rw [h]
      exact update_self l true e.files
  mknod_error l mode rdev e errno herr := by
    rcases syscall_mknod l mode rdev e with ⟨-, h⟩ | ⟨-, h⟩
    · rw [h]
    · rw [h] at herr
      cases herr
  push_hasFile _ _ _ := rfl
  push_mono l p e x h := by
    change e.device x.str = true at h
    change update e.device p (e.files l || e.device p) x.str = true
    by_cases hx : x.str = p
    · rw [hx] at h ⊢
      rw [update_self, h, Bool.or_true]
    · rwa [update_of_ne hx]
  pull_onDevice _ _ _ := rfl
  pull_other l p e l' h := by
    change update e.files l (e.device p || e.files l) l' = e.files l'
    exact update_of_ne h _ e.files
  pull_makes l p e h := by
    change update e.files l (e.device p || e.files l) l = true at h
    rw [update_self, Bool.or_eq_true] at h
    refine h.symm.imp id fun hp x hx => ?_
    change e.device x.str = true
    rw [hx, hp]

/-- The device has the file `/a`; the temporary directory is empty. -/
def start : World Saving :=
  ⟨FileCache.empty, FileStatus.empty, fun _ => false, fun p => p = ['/'] ∨ p = ['/', 'a']⟩

end Saving

theorem mknod_never_eexist_removed :
    (∀ pre post, [Callback.open' ['/', 'a'] ⟨0, 2⟩, .unlink ['/', 'a']] = pre ++ post →
        Saving.view.Creatable exampleGlobals
          (final (Callback.step Saving.env exampleGlobals) pre Saving.start)) ↔
      ∀ pre c post, [Callback.open' ['/', 'a'] ⟨0, 2⟩, .unlink ['/', 'a']] = pre ++ c :: post →
        Saving.view.Tidy exampleGlobals
          (final (Callback.step Saving.env exampleGlobals) pre Saving.start) c := by
  refine mknod_never_eexist_iff Saving.view exampleGlobals (fun c hc => ?_)
    fun x hx => Bool.false_ne_true hx
  simp only [List.mem_cons, List.not_mem_nil, or_false] at hc
  rcases hc with rfl | rfl
  · change (2 : Int).toNat &&& (O_CREAT ||| O_TRUNC) = 0
    decide
  · trivial

/-- An editor saves a file: it renames the old file away and makes a new one. -/
theorem mknod_fails_after_rename :
    let w := final (Callback.step Saving.env exampleGlobals)
      [.open' ['/', 'a'] ⟨0, 2⟩, .release ['/', 'a'] ⟨5, 2⟩, .rename ['/', 'a'] ['/', 'b']]
      Saving.start
    w.env.device ['/', 'a'] = false ∧
      ((Callback.mknod ['/', 'a'] 0o100644 0).step Saving.env exampleGlobals w).1.result =
        - EEXIST := by
  decide +kernel

end AdbncFs
