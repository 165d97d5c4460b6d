import AdbncFs.System.Lifecycle

/-!
# The connection to the device

The port that `adb` forwards and the netcat process on the device do not belong to one run of the
program: they may be there before, and every run that stops them stops them whoever has set them
up. `connection` says what the program counts on: what the two listings show, that a removal and
a `kill` work, and that the lines of `id` and `mount` fit the arrays of their parsers. That the port
is forwarded and that netcat starts is nowhere counted on, and what happens to both during the
callbacks is left open. Some arguments are pointers into strings that the source has destroyed
already; their text is taken to be still there.

`main_connection` is about every such run: how it leaves the connection, and that it does not crash.
-/

namespace AdbncFs

open Text Interaction

/-! ## The protocol -/

structure Connection where
  /-- the lines of `adb forward --list` -/
  forwards : Output
  /-- the pid of the netcat process on the device, or 0 -/
  netcat : Nat

def Connection.Forwarded (s : Connection) : Prop := ∃ line ∈ s.forwards, strForwardArg <:+: line

/-- The lines that a program prints, if it can be started. -/
def printed : Option (Str × Int) → Output
  | none => []
  | some (stream, _) => (execProg.loop false stream).1

/-- How a program changes the connection, and what it prints. -/
def Connection.Spawned (s t : Connection) (argv : List Str) (output : Output) : Prop :=
  if argv = listArgv then output = s.forwards ∧ t = s
  else if argv = forwardArgv then t.netcat = s.netcat
  else if argv = removeArgv then ¬ t.Forwarded ∧ t.netcat = s.netcat
  else if argv = psArgv then GoodListing output ∧ FirstPid output s.netcat ∧ t = s
  else if argv = nohupArgv then t.forwards = s.forwards
  else if argv = killArgv s.netcat then t = { s with netcat := 0 }
  else if argv = idArgv ∨ argv = mountArgv then (∀ line ∈ output, FitsCopy line) ∧ t = s
  else t = s

def sysConnection : Protocol Sys Connection where
  allows _ _ := True
  next
    | s, .spawn argv _, r, t => s.Spawned t argv (printed r)
    | s, _, _, t => t = s

def connection : Protocol Life Connection where
  allows _ _ := True
  next
    | s, .sys op, r, t => sysConnection.next s op r t
    | _, .callback _, _, _ => True
    | s, _, _, t => t = s

variable {α : Type} {s t : Connection}

theorem obeys_lift {Q : α → Connection → Prop} {p : Program Sys α}
    (h : p.Obeys sysConnection s Q) : (sysLife p).Obeys connection s Q :=
  h.expand fun s op _ => by
    have hallows : connection.allows s (.sys op) := trivial
    exact Program.obeys_send hallows

theorem obeys_exec (argv : List Str) :
    (execProg argv false).Obeys sysConnection s fun r t => s.Spawned t argv r.1 := by
  have hallows : sysConnection.allows s (.spawn argv false) := trivial
  refine Program.obeys_send_bind hallows fun r t ht => ?_
  cases r with
  | none => exact Program.obeys_pure ht
  | some r =>
    dsimp only
    split <;> exact Program.obeys_pure ht

/-! ## The programs -/

theorem spawned_list {output : Output} :
    s.Spawned t listArgv output ↔ output = s.forwards ∧ t = s := by
  rw [Connection.Spawned, if_pos rfl]

theorem spawned_forward {output : Output} :
    s.Spawned t forwardArgv output ↔ t.netcat = s.netcat := by
  rw [Connection.Spawned, if_neg (by decide), if_pos rfl]

theorem spawned_remove {output : Output} :
    s.Spawned t removeArgv output ↔ ¬ t.Forwarded ∧ t.netcat = s.netcat := by
  rw [Connection.Spawned, if_neg (by decide), if_neg (by decide), if_pos rfl]

theorem spawned_ps {output : Output} :
    s.Spawned t psArgv output ↔ GoodListing output ∧ FirstPid output s.netcat ∧ t = s := by
  rw [Connection.Spawned, if_neg (by decide), if_neg (by decide), if_neg (by decide), if_pos rfl]

theorem spawned_nohup {output : Output} :
    s.Spawned t nohupArgv output ↔ t.forwards = s.forwards := by
  rw [Connection.Spawned, if_neg (by decide), if_neg (by decide), if_neg (by decide),
    if_neg (by decide), if_pos rfl]

/-- The arguments of no program that changes or shows the connection, and of none that is asked for
the user or the mounts. -/
def Unrelated (argv : List Str) : Prop :=
  argv ∉ [listArgv, forwardArgv, removeArgv, psArgv, nohupArgv, idArgv, mountArgv] ∧
    ∀ iPid, argv ≠ killArgv iPid

theorem spawned_unrelated {argv : List Str} {output : Output} (h : Unrelated argv) :
    s.Spawned t argv output ↔ t = s := by
  obtain ⟨hargv, hkill⟩ := h
  simp only [List.mem_cons, List.not_mem_nil, or_false, not_or] at hargv
  obtain ⟨hlist, hforward, hremove, hps, hnohup, hid, hmount⟩ := hargv
  rw [Connection.Spawned, if_neg hlist, if_neg hforward, if_neg hremove, if_neg hps,
    if_neg hnohup, if_neg (hkill _), if_neg (not_or.mpr ⟨hid, hmount⟩)]

theorem spawned_query {argv : List Str} {output : Output} (h : argv = idArgv ∨ argv = mountArgv) :
    s.Spawned t argv output ↔ (∀ line ∈ output, FitsCopy line) ∧ t = s := by
  have hother : argv ∉ [listArgv, forwardArgv, removeArgv, psArgv, nohupArgv] := by
    rcases h with rfl | rfl <;> decide
  have hkill : argv ≠ killArgv s.netcat := by
    rcases h with rfl | rfl <;> simp [killArgv, idArgv, mountArgv]
  simp only [List.mem_cons, List.not_mem_nil, or_false, not_or] at hother
  obtain ⟨hlist, hforward, hremove, hps, hnohup⟩ := hother
  rw [Connection.Spawned, if_neg hlist, if_neg hforward, if_neg hremove, if_neg hps,
    if_neg hnohup, if_neg hkill, if_pos h]

theorem spawned_kill {output : Output} :
    s.Spawned t (killArgv s.netcat) output ↔ t = { s with netcat := 0 } := by
  have hne : ∀ argv ∈ [listArgv, forwardArgv, removeArgv, psArgv, nohupArgv],
      killArgv s.netcat ≠ argv := by
    simp [killArgv, listArgv, forwardArgv, removeArgv, psArgv, nohupArgv]
  simp only [List.mem_cons, List.not_mem_nil, or_false, forall_eq_or_imp, forall_eq] at hne
  obtain ⟨hlist, hforward, hremove, hps, hnohup⟩ := hne
  rw [Connection.Spawned, if_neg hlist, if_neg hforward, if_neg hremove, if_neg hps,
    if_neg hnohup, if_pos rfl]

/-! ## The pid of the process -/

theorem ListsPid.unique {line : Str} {n m : Int} (hn : ListsPid line n) (hm : ListsPid line m) :
    n = m :=
  Except.ok.inj ((stoi_eq_ok_iff.mpr hn.2).symm.trans (stoi_eq_ok_iff.mpr hm.2))

theorem firstPid_cons {line : Str} {output : Output} {n : Int} (h : FirstPid (line :: output) n) :
    ListsPid line n ∨ (∀ m, ¬ ListsPid line m) ∧ FirstPid output n := by
  rcases h with ⟨pre, l, post, hsplit, hpre, hlists⟩ | ⟨rfl, hnone⟩
  · cases pre with
    | nil =>
      cases hsplit
      exact .inl hlists
    | cons l' pre =>
      cases hsplit
      exact .inr ⟨hpre line List.mem_cons_self, .inl ⟨pre, l, post, rfl,
        fun k hk => hpre k (List.mem_cons_of_mem _ hk), hlists⟩⟩
  · exact .inr ⟨hnone line List.mem_cons_self, .inr ⟨rfl,
      fun l hl => hnone l (List.mem_cons_of_mem _ hl)⟩⟩

theorem FirstPid.unique {output : Output} {n m : Int} (hn : FirstPid output n)
    (hm : FirstPid output m) : n = m := by
  induction output with
  | nil =>
    have hzero : ∀ {k}, FirstPid [] k → k = 0 := by
      rintro k (⟨pre, line, post, hsplit, -⟩ | ⟨rfl, -⟩)
      · exact absurd hsplit (by simp)
      · rfl
    rw [hzero hn, hzero hm]
  | cons line output ih =>
    rcases firstPid_cons hn with hn | ⟨hnone, hn⟩ <;> rcases firstPid_cons hm with hm | ⟨hnone', hm⟩
    · exact hn.unique hm
    · exact absurd hn (hnone' n)
    · exact absurd hm (hnone m)
    · exact ih hn hm

/-! ## The functions -/

theorem obeys_isAndroidPortForwarded :
    (isAndroidPortForwarded strForwardArg).Obeys sysConnection s fun f t =>
      (f = true ↔ s.Forwarded) ∧ t = s := by
  refine (obeys_exec listArgv).bind fun r t ht => ?_
  obtain ⟨houtput, rfl⟩ := spawned_list.mp ht
  refine Program.obeys_pure ⟨?_, rfl⟩
  rw [List.any_eq_true, houtput]
  refine exists_congr fun line => and_congr_right fun _ => ?_
  rw [decide_eq_true_iff]
  exact find_zero_ne_none

theorem obeys_setAndroidPortForwarding :
    setAndroidPortForwarding.Obeys sysConnection s fun iRes t =>
      (iRes = 0 ↔ t.Forwarded) ∧ t.netcat = s.netcat := by
  have hrest : ∀ t : Connection, t.netcat = s.netcat →
      (do return if ← isAndroidPortForwarded strForwardArg then 0 else 2 :
        Program Sys Int).Obeys sysConnection t fun iRes u =>
          (iRes = 0 ↔ u.Forwarded) ∧ u.netcat = s.netcat := by
    intro t ht
    refine obeys_isAndroidPortForwarded.bind fun f u ⟨hf, hu⟩ => Program.obeys_pure ?_
    subst hu
    refine ⟨?_, ht⟩
    rw [← hf]
    cases f <;> decide
  refine obeys_isAndroidPortForwarded.bind fun f t ⟨hf, ht⟩ => ?_
  subst ht
  split
  · exact (obeys_exec forwardArgv).bind fun _ t ht => hrest t (spawned_forward.mp ht)
  · exact hrest t rfl

theorem obeys_removeAndroidPortForwarding :
    removeAndroidPortForwarding.Obeys sysConnection s fun _ t =>
      ¬ t.Forwarded ∧ t.netcat = s.netcat := by
  have hrest : ∀ t : Connection, ¬ t.Forwarded ∧ t.netcat = s.netcat →
      (do return ¬ (← isAndroidPortForwarded strForwardArg) :
        Program Sys Bool).Obeys sysConnection t fun _ u =>
          ¬ u.Forwarded ∧ u.netcat = s.netcat := by
    intro t ht
    refine obeys_isAndroidPortForwarded.bind fun f u ⟨_, hu⟩ => Program.obeys_pure ?_
    rw [hu]
    exact ht
  refine obeys_isAndroidPortForwarded.bind fun f t ⟨hf, ht⟩ => ?_
  subst ht
  split
  · exact (obeys_exec removeArgv).bind fun _ t ht => hrest t (spawned_remove.mp ht)
  · rename_i hno
    exact hrest t ⟨fun h => hno (hf.mpr h), rfl⟩

/-- It neither crashes nor changes anything. -/
theorem obeys_androidNetcatStarted :
    Program.ObeysExcept sysConnection s androidNetcatStarted
      (fun iPid t => iPid = s.netcat ∧ t = s) fun _ _ => False := by
  refine (obeys_exec psArgv).bind_lift fun r t ht => ?_
  obtain ⟨hgood, hpid, rfl⟩ := spawned_ps.mp ht
  obtain ⟨iPid, hloop, hfirst⟩ := loop_of_goodListing hgood
  dsimp only
  rw [hloop]
  exact Program.obeysExcept_pure ⟨hfirst.unique hpid, rfl⟩

theorem obeys_androidStartNetcat :
    Program.ObeysExcept sysConnection s androidStartNetcat
      (fun iRes t => (iRes = 0 ↔ t.netcat ≠ 0) ∧ t.forwards = s.forwards) fun _ _ => False := by
  have hrest : ∀ t : Connection, t.forwards = s.forwards →
      Program.ObeysExcept sysConnection t
        (do return if (← androidNetcatStarted) ≠ 0 then 0 else 3 :
          ExceptT Crash (Program Sys) Int)
        (fun iRes u => (iRes = 0 ↔ u.netcat ≠ 0) ∧ u.forwards = s.forwards)
        fun _ _ => False := by
    intro t ht
    refine obeys_androidNetcatStarted.bind fun iStarted u ⟨hstarted, hu⟩ => ?_
    subst hu
    refine Program.obeysExcept_pure ⟨?_, ht⟩
    split
    · exact iff_of_true rfl (by omega)
    · exact iff_of_false (by decide) (by omega)
  refine obeys_androidNetcatStarted.bind fun iPid t ⟨hpid, ht⟩ => ?_
  subst ht
  split
  · exact (obeys_exec nohupArgv).bind_lift fun _ t ht => hrest t (spawned_nohup.mp ht)
  · exact hrest t rfl

theorem obeys_androidKillNetCat :
    Program.ObeysExcept sysConnection s androidKillNetCat
      (fun _ t => t = { s with netcat := 0 }) fun _ _ => False := by
  have hrest : ∀ t : Connection, t = { s with netcat := 0 } →
      Program.ObeysExcept sysConnection t
        (do let _ ← androidNetcatStarted : ExceptT Crash (Program Sys) Unit)
        (fun _ u => u = { s with netcat := 0 }) fun _ _ => False := by
    intro t ht
    refine obeys_androidNetcatStarted.bind fun _ u ⟨_, hu⟩ => Program.obeysExcept_pure ?_
    rw [hu, ht]
  refine obeys_androidNetcatStarted.bind fun iPid t ⟨hpid, ht⟩ => ?_
  subst ht
  split
  · refine (obeys_exec (killArgv iPid)).bind_lift fun r t' ht' => hrest t' ?_
    rw [hpid] at ht'
    exact spawned_kill.mp ht'
  · have hzero : t.netcat = 0 := by omega
    refine hrest t ?_
    rw [← hzero]

/-- A program that has nothing to do with the connection. -/
theorem obeys_other {argv : List Str} (h : Unrelated argv)
    (f : Output × Option Int → Program Sys α) (hf : ∀ r, ∃ a, f r = pure a) :
    (execProg argv false >>= f).Obeys sysConnection s fun _ t => t = s := by
  refine (obeys_exec argv).bind fun r t ht => ?_
  obtain ⟨a, ha⟩ := hf r
  rw [ha]
  exact Program.obeys_pure ((spawned_unrelated h).mp ht)

theorem unrelated_of_short {argv : List Str}
    (h : argv ∉ [listArgv, forwardArgv, removeArgv, psArgv, nohupArgv, idArgv, mountArgv])
    (hlength : argv.length < 7) :
    Unrelated argv := by
  refine ⟨h, fun iPid hkill => ?_⟩
  rw [hkill] at hlength
  exact absurd hlength (lt_irrefl 7)

theorem obeys_isAndroidDeviceConnected :
    isAndroidDeviceConnected.Obeys sysConnection s fun _ t => t = s :=
  obeys_other (unrelated_of_short (by decide) (by decide)) _ fun _ => ⟨_, rfl⟩

/-- A query whose lines fit has a result, and changes nothing. -/
theorem obeys_queryLines {argv : List Str} (h : argv = idArgv ∨ argv = mountArgv)
    {f : Output → Option α} (hf : ∀ output, (∀ line ∈ output, FitsCopy line) →
      ∃ a, f output = some a) :
    Program.ObeysExcept sysConnection s
      (do
        let r ← execProg argv false
        ofExcept (defined (f r.1)) : ExceptT Crash (Program Sys) α)
      (fun _ t => t = s) fun _ _ => False := by
  refine (obeys_exec argv).bind_lift fun r t ht => ?_
  obtain ⟨hfits, hsame⟩ := (spawned_query h).mp ht
  obtain ⟨a, ha⟩ := hf r.1 hfits
  rw [ha]
  exact Program.obeysExcept_pure hsame

theorem obeys_queryUserInfo (iUid iGid : Int) :
    Program.ObeysExcept sysConnection s (queryUserInfo iUid iGid) (fun _ t => t = s)
      fun _ _ => False :=
  obeys_queryLines (.inl rfl) fun output hfits =>
    (exists_userOfOutput_iff iUid iGid output).mpr fun line hline _ =>
      hfits line (hline ▸ List.mem_singleton_self line)

theorem obeys_queryMountInfo :
    Program.ObeysExcept sysConnection s queryMountInfo (fun _ t => t = s) fun _ _ => False :=
  obeys_queryLines (.inr rfl) fun output hfits => by
    have hresult := mountsOfOutput_eq output
    rw [if_pos hfits] at hresult
    cases hmounts : mountsOfOutput output with
    | some r => exact ⟨r, rfl⟩
    | none =>
      rw [hmounts] at hresult
      split at hresult <;> cases hresult

theorem obeys_removeTempDir (inst : Instance) :
    (cleanupTempDir inst).Obeys sysConnection s fun _ t => t = s := by
  have hunrelated : Unrelated ["rm".toList, "-rf".toList, inst.strTempDirPath] :=
    unrelated_of_short
      (by simp [listArgv, forwardArgv, removeArgv, psArgv, nohupArgv, idArgv, mountArgv])
      (show 3 < 7 by decide)
  exact obeys_other hunrelated _ fun _ => ⟨_, rfl⟩

/-! ## The runs of `main` -/

/-- The connection is set up, as far as the program can tell. -/
def Connection.Up (s : Connection) : Prop := s.Forwarded ∧ s.netcat ≠ 0

def Connection.Down (s : Connection) : Prop := ¬ s.Forwarded ∧ s.netcat = 0

/-- The constructor of the local netcat process fails. -/
def Stop.NoNetCat : Stop → Prop
  | .runtime_error _ => True
  | .crash _ => False

theorem obeys_crashing {Q : α → Connection → Prop} {E : Stop → Connection → Prop}
    {x : ExceptT Crash (Program Sys) α}
    (h : Program.ObeysExcept sysConnection s x Q fun _ _ => False) :
    Program.ObeysExcept connection s (mayCrash x) Q E := by
  change (Except.mapError Stop.crash <$> sysLife x.run).Obeys connection s _
  rw [← bind_pure_comp]
  refine (obeys_lift h).bind fun r t ht => Program.obeys_pure ?_
  cases r with
  | ok a => exact ht
  | error c => exact ht.elim

theorem obeys_unconnected (op : Life.Op)
    (h : ∀ (r : op.Res) t, connection.next s op r t → t = s) :
    (Program.send (S := Life) op).Obeys connection s fun _ t => t = s :=
  (Program.obeys_send (S := Life) (P := connection) trivial).mono h

theorem obeys_makingTempDir (inst : Instance) :
    (makeTempDir inst).Obeys connection s fun _ t => t = s := by
  refine (obeys_unconnected (.mkdtemp pcTempDirTemplate) fun _ _ h => h).bind
    fun r t ht => ?_
  cases r with
  | ok _ => exact Program.obeys_pure ht
  | error _ => exact Program.obeys_pure ht

theorem obeys_newNetCat (inst : Instance) :
    Program.ObeysExcept connection s (initNetCat inst) (fun _ t => t = s)
      fun e _ => e.NoNetCat := by
  rw [initNetCat]
  split
  · exact Program.obeysExcept_pure rfl
  · refine (obeys_unconnected (.newNetCat _) fun _ _ h => h).bind_lift fun r t ht => ?_
    cases r with
    | ok _ => exact Program.obeysExcept_pure ht
    | error strErr => exact Program.obeysExcept_throw trivial

theorem up_initAdbncFs {argv : List Str} (hargv : fInitRequired argv = true) (iUid iGid : Int)
    (inst : Instance) :
    Program.ObeysExcept connection s (initAdbncFs argv iUid iGid inst)
      (fun r t => r.1 = 0 → t.Up) fun e _ => e.NoNetCat := by
  rw [initAdbncFs, if_neg (not_not.mpr hargv)]
  have hfail : ∀ {iRes : Int} (inst : Instance) (t : Connection), iRes ≠ 0 →
      Program.ObeysExcept connection t (pure (iRes, inst) : Main _) (fun r t => r.1 = 0 → t.Up)
        fun e _ => e.NoNetCat :=
    fun inst t hne => Program.obeysExcept_pure fun hzero => absurd hzero hne
  refine (obeys_makingTempDir inst).bind_lift fun r t _ => ?_
  obtain ⟨iRes, inst⟩ := r
  dsimp only
  split
  · exact hfail inst t ‹_›
  refine (obeys_lift obeys_isAndroidDeviceConnected).bind_lift fun iRes t _ => ?_
  split
  · exact hfail inst t ‹_›
  refine (obeys_lift obeys_setAndroidPortForwarding).bind_lift fun iRes t ht => ?_
  have hforwarded := ht.1
  split
  · exact hfail inst t ‹_›
  rename_i hset
  refine (obeys_crashing obeys_androidStartNetcat).bind fun iRes u hu => ?_
  obtain ⟨hnetcat, hforwards⟩ := hu
  split
  · exact hfail inst u ‹_›
  rename_i hstarted
  have hup : u.Up := by
    refine ⟨?_, hnetcat.mp (not_not.mp hstarted)⟩
    rw [Connection.Forwarded, hforwards]
    exact hforwarded.mp (not_not.mp hset)
  refine (obeys_crashing (obeys_queryUserInfo iUid iGid)).bind fun r v hv => ?_
  obtain ⟨iRes, pUserInfo⟩ := r
  subst hv
  dsimp only
  split
  · exact hfail _ v ‹_›
  refine (obeys_crashing obeys_queryMountInfo).bind fun r w hw => ?_
  subst hw
  refine (obeys_newNetCat _).bind fun inst' x hx => Program.obeysExcept_pure fun _ => ?_
  rw [hx]
  exact hup

theorem obeys_stopping (inst : Instance) :
    (destroyNetCat inst).Obeys connection s fun _ t => t = s := by
  rw [destroyNetCat]
  split
  · refine (obeys_unconnected .sendEof fun _ _ h => h).bind fun _ s₁ h₁ => ?_
    refine (obeys_unconnected .wait fun _ _ h => h).bind fun _ s₂ h₂ => ?_
    refine (obeys_unconnected .deleteNetCat fun _ _ h => h).bind fun _ s₃ h₃ => ?_
    exact Program.obeys_pure (h₃.trans (h₂.trans h₁))
  · exact Program.obeys_pure rfl

theorem down_adbnc_destroy (inst : Instance) :
    Program.ObeysExcept connection s (adbnc_destroy inst) (fun _ t => t.Down)
      fun _ _ => False := by
  refine (obeys_unconnected .destroyLocks fun _ _ h => h).bind_lift fun _ s₁ _ => ?_
  refine (obeys_stopping inst).bind_lift fun inst' s₂ _ => ?_
  refine (obeys_crashing obeys_androidKillNetCat).bind fun _ s₃ h₃ => ?_
  refine (obeys_lift obeys_removeAndroidPortForwarding).bind_lift fun _ s₄ h₄ => ?_
  refine (obeys_lift (obeys_removeTempDir inst')).bind_lift fun _ s₅ h₅ => ?_
  subst h₃ h₅
  exact Program.obeysExcept_pure h₄

/-- How a run leaves the connection that was there before. -/
def Connection.Left (s : Connection) (argv : List Str) (session : Session) :
    Except Stop Int → Connection → Prop
  | .error e, _ => e.NoNetCat ∧ fInitRequired argv = true
  | .ok iRes, t =>
    if session.mounts = true ∨ iRes ≠ 0 then t.Down
    else if fInitRequired argv = true then t.Up
    else t = s

variable {argv : List Str} {session : Session} {iUid iGid : Int}

/-- What FUSE does to a connection that is up, or that the program has not touched. -/
theorem obeys_fuse_main (inst : Instance) :
    Program.ObeysExcept connection s (fuse_main session inst)
      (fun _ t => (session.mounts = true → t.Down) ∧ (¬ session.mounts = true → t = s))
      fun _ _ => False := by
  rw [fuse_main]
  by_cases hmounts : session.mounts = true
  · rw [if_pos hmounts]
    have hcallbacks : ∀ (t : Connection) (p : Program DirSys Unit),
        (callbackLife p).Obeys connection t fun _ _ => True := by
      intro t p
      induction p generalizing t with
      | ret a => trivial
      | call op k ih => exact ⟨trivial, fun r t' _ => ih r t'⟩
    refine (obeys_unconnected .initLocks fun _ _ h => h).bind_lift fun _ s₁ _ => ?_
    refine (obeys_unconnected .serve fun _ _ h => h).bind_lift fun _ s₂ _ => ?_
    refine (hcallbacks s₂ (session.callbacks inst)).bind_lift fun _ s₃ _ => ?_
    exact (down_adbnc_destroy inst).bind fun _ t ht =>
      Program.obeysExcept_pure ⟨fun _ => ht, fun hno => absurd hmounts hno⟩
  · rw [if_neg hmounts]
    exact Program.obeysExcept_pure ⟨fun hyes => absurd hyes hmounts, fun _ => rfl⟩

/-- The last lines of `main`. -/
theorem obeys_end {iRes : Int} (inst : Instance)
    (hzero : iRes = 0 → s.Left argv session (.ok iRes) t) :
    Program.ObeysExcept connection t
      (if iRes ≠ 0 then do
        let _ ← adbnc_destroy inst
        return iRes
      else return iRes)
      (fun iRes t => s.Left argv session (.ok iRes) t)
      fun e t => s.Left argv session (.error e) t := by
  split
  · rename_i hne
    refine Program.ObeysExcept.bind ((down_adbnc_destroy inst).mono (fun _ _ h => h) ?_)
      fun _ u hdown => Program.obeysExcept_pure ?_
    · exact fun _ _ h => h.elim
    · rw [Connection.Left, if_pos (.inr hne)]
      exact hdown
  · rename_i hzero'
    exact Program.obeysExcept_pure (hzero (not_not.mp hzero'))

theorem obeys_main_connection :
    Program.ObeysExcept connection s (main argv session iUid iGid)
      (fun iRes t => s.Left argv session (.ok iRes) t)
      fun e t => s.Left argv session (.error e) t := by
  rw [main]
  have hfuse : ∀ (inst : Instance) (t : Connection),
      (if fInitRequired argv = true then t.Up else t = s) →
      Program.ObeysExcept connection t
        (do
          let r ← fuse_main session inst
          if r.1 ≠ 0 then
            let _ ← adbnc_destroy r.2
            return r.1
          else return r.1)
        (fun iRes t => s.Left argv session (.ok iRes) t)
        fun e t => s.Left argv session (.error e) t := by
    intro inst t ht
    refine Program.ObeysExcept.bind ((obeys_fuse_main inst).mono (fun _ _ h => h) ?_)
      fun r u h => obeys_end r.2 fun hzero => ?_
    · exact fun _ _ h => h.elim
    · obtain ⟨hdown, hsame⟩ := h
      rw [hzero]
      by_cases hmounts : session.mounts = true
      · rw [Connection.Left, if_pos (.inl hmounts)]
        exact hdown hmounts
      · rw [Connection.Left, if_neg (by simpa using hmounts), hsame hmounts]
        exact ht
  by_cases hargv : fInitRequired argv = true
  · refine Program.ObeysExcept.bind ((up_initAdbncFs hargv iUid iGid _).mono (fun _ _ h => h) ?_)
      fun r t hup => ?_
    · exact fun e _ he => ⟨he, hargv⟩
    · obtain ⟨iRes, inst⟩ := r
      dsimp only at hup ⊢
      by_cases hzero : iRes = 0
      · rw [if_pos hzero]
        refine hfuse inst t ?_
        rw [if_pos hargv]
        exact hup hzero
      · rw [if_neg hzero, pure_bind]
        exact obeys_end inst fun h => absurd h hzero
  · rw [initAdbncFs, if_pos hargv, pure_bind]
    dsimp only
    rw [if_pos rfl]
    refine hfuse _ s ?_
    rw [if_neg hargv]

/-- A run that has mounted the file system, or that fails, stops the connection, whoever has set it
up; also one that was asked for help. Another one leaves it as it is, or set up. The only exception
is that of the local netcat process. -/
theorem main_connection {es : List (Event Life)} {r : Except Stop Int}
    (hpath : (main argv session iUid iGid).run.Path es r) (hfollows : connection.Follows s es t) :
    s.Left argv session r t := by
  have hend := Program.Obeys.result obeys_main_connection hpath hfollows
  cases r with
  | ok iRes => exact hend
  | error e => exact hend

/-! ### A run that is asked for help -/

def Attached.connection (x : Attached) : Connection where
  forwards := if x.forwarded then ["0123456789ABCDEF tcp:4444 tcp:4444".toList] else []
  netcat := if x.netcat then 17 else 0

theorem good_of_loop {output : Output} {iPid : Int}
    (h : androidNetcatStarted.loop output = .ok iPid) :
    GoodListing output ∧ FirstPid output iPid := by
  have hgood := goodListing_of_loop h
  obtain ⟨n, hloop, hfirst⟩ := loop_of_goodListing hgood
  obtain rfl : n = iPid := Except.ok.inj (hloop.symm.trans h)
  exact ⟨hgood, hfirst⟩

theorem printed_list (x : Attached) :
    printed (some (x.prints listArgv, 0)) = x.connection.forwards := by
  obtain ⟨_ | _, _ | _⟩ := x <;> decide +kernel

theorem loop_prints (x : Attached) :
    androidNetcatStarted.loop (printed (some (x.prints psArgv, 0))) =
      .ok (x.connection.netcat : Int) := by
  obtain ⟨_ | _, _ | _⟩ := x <;> decide +kernel

theorem fits_prints (x : Attached) {argv : List Str} (h : argv = idArgv ∨ argv = mountArgv) :
    ∀ line ∈ printed (some (x.prints argv, 0)), FitsCopy line := by
  obtain ⟨_ | _, _ | _⟩ := x <;> rcases h with rfl | rfl <;> decide +kernel

theorem spawned_attached (x : Attached) (argv : List Str) :
    x.connection.Spawned (x.after argv).connection argv (printed (some (x.prints argv, 0))) := by
  rw [Connection.Spawned]
  split
  · rename_i h
    subst h
    exact ⟨printed_list x, rfl⟩
  split
  · rename_i h
    subst h
    rfl
  split
  · rename_i h
    subst h
    refine ⟨?_, rfl⟩
    rintro ⟨line, hline, -⟩
    cases hline
  split
  · rename_i h
    subst h
    obtain ⟨hgood, hpid⟩ := good_of_loop (loop_prints x)
    exact ⟨hgood, hpid, rfl⟩
  split
  · rename_i h
    subst h
    rfl
  rename_i hlist hforward hremove hps hnohup
  rw [Attached.after, if_neg hforward, if_neg hremove, if_neg hnohup]
  obtain ⟨forwarded, _ | _⟩ := x
  · have hsame : (if argv = killArgv 17 then ⟨forwarded, false⟩ else ⟨forwarded, false⟩ :
        Attached) = ⟨forwarded, false⟩ := ite_self _
    rw [hsame]
    split
    · rfl
    · split
      · exact ⟨fits_prints _ ‹_›, rfl⟩
      · rfl
  · split
    · rename_i hkill
      rw [if_pos (show argv = killArgv 17 from hkill)]
      rfl
    · rename_i hkill
      rw [if_neg (show ¬ argv = killArgv 17 from hkill)]
      split
      · exact ⟨fits_prints _ ‹_›, rfl⟩
      · rfl

theorem follows_attached (p : Program Life α) (x : Attached) :
    connection.Follows x.connection (p.trace attached x) (p.run attached x).2.connection := by
  refine Program.follows_trace Attached.connection (fun op x => ⟨?_, ?_⟩) p x
  · exact trivial
  · cases op with
    | sys op =>
      cases op with
      | spawn argv fUseStdErr => exact spawned_attached x argv
      | _ => rfl
    | callback op => exact trivial
    | _ => rfl

/-- FUSE reports a failure when it was asked for help. The connection of another run is stopped. -/
theorem main_connection_help :
    let x : Attached := ⟨true, true⟩
    let help := main ["adbncfs".toList, "--help".toList] ⟨false, fun _ => pure (), 1⟩ 0 0
    x.connection.Up ∧ (help.run.run attached x).1 = .ok 1 ∧
      (help.run.run attached x).2.connection.Down := by
  intro x help
  have hresult : (help.run.run attached x).1 = .ok 1 := by decide +kernel
  have hleft := main_connection (Program.path_trace attached help.run x)
    (follows_attached help.run x)
  rw [hresult, Connection.Left, if_pos (.inr one_ne_zero)] at hleft
  refine ⟨⟨⟨_, List.mem_singleton_self _, ?_⟩, ?_⟩, hresult, hleft⟩
  · exact ⟨"0123456789ABCDEF ".toList, [], by decide⟩
  · decide

end AdbncFs
