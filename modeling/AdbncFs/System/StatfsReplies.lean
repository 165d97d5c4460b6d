import AdbncFs.System.StatArrays
import AdbncFs.Text.Conversions
import AdbncFs.Text.Printing

/-!
# Replies of the df command

`adbnc_statfs` fails on a reply of one line and where a conversion throws, and is undefined for a
second line that does not fit the array of `tokenize`. A second line of fewer than six columns is
left out without an error, and a conversion takes the digits at the front of a column for its
number. `statfs_numbers_iff` says which replies come out right.
-/

namespace AdbncFs

open Text Interaction

/-! ## One reply -/

/-- The columns of the second line. -/
def dfColumns : Output → List Str
  | _ :: line :: _ => tokenize line
  | _ => []

/-- The second and the fourth column of the second line are these numbers. -/
structure DfNumbers (output : Output) (total free : Nat) : Prop where
  second : Numeral 10 (token (dfColumns output) 1) total
  second_lt : total < 2 ^ 64
  fourth : Numeral 10 (token (dfColumns output) 3) free
  fourth_lt : free < 2 ^ 64

/-- The conversions of the two columns. -/
def DfConverts (output : Output) (total free : Nat) : Prop :=
  stoul (token (dfColumns output) 1) 10 = .ok total ∧
    stoul (token (dfColumns output) 3) 10 = .ok free

/-- The reply is an error: it has no second line, or one of six columns whose second or fourth
does not convert. -/
def DfRefused (output : Output) : Prop :=
  output.length < 2 ∨ 6 ≤ (dfColumns output).length ∧ ¬ ∃ total free, DfConverts output total free

/-- The two columns are numbers, in a line of six columns, or else both zero. -/
def DfPlain (output : Output) : Prop :=
  ∃ total free, DfNumbers output total free ∧
    (6 ≤ (dfColumns output).length ∨ total = 0 ∧ free = 0)

theorem DfNumbers.converts {output : Output} {total free : Nat}
    (h : DfNumbers output total free) : DfConverts output total free :=
  ⟨stoul_numeral (by decide) h.second h.second_lt, stoul_numeral (by decide) h.fourth h.fourth_lt⟩

theorem DfConverts.unique {output : Output} {total free total' free' : Nat}
    (h : DfConverts output total free) (h' : DfConverts output total' free') :
    total = total' ∧ free = free' :=
  ⟨Except.ok.inj (h.1.symm.trans h'.1), Except.ok.inj (h.2.symm.trans h'.2)⟩

theorem plain_of_converts {output : Output} {total free : Nat}
    (hsix : 6 ≤ (dfColumns output).length) (h : DfConverts output total free) :
    DfNumbers output total free ↔ DfPlain output := by
  constructor
  · exact fun hnum => ⟨total, free, hnum, Or.inl hsix⟩
  · rintro ⟨total', free', hnum, -⟩
    obtain ⟨rfl, rfl⟩ := h.unique hnum.converts
    exact hnum

theorem plain_of_short {output : Output} (hshort : (dfColumns output).length < 6) :
    DfNumbers output 0 0 ↔ DfPlain output := by
  constructor
  · exact fun hnum => ⟨0, 0, hnum, Or.inr ⟨rfl, rfl⟩⟩
  · rintro ⟨total, free, hnum, hsix | ⟨rfl, rfl⟩⟩
    · omega
    · exact hnum

/-- A `try` block that stores the two numbers. -/
def Stores (fill : List Str → ExceptT Exception (StateM StatVfs) Unit)
    (store : Nat → Nat → StatVfs → StatVfs) : Prop :=
  ∀ tokens fst,
    (∀ total free, stoul (token tokens 1) 10 = .ok total → stoul (token tokens 3) 10 = .ok free →
      (fill tokens).run.run fst = (.ok (), store total free fst)) ∧
    ((¬ ∃ total free, stoul (token tokens 1) 10 = .ok total ∧
        stoul (token tokens 3) 10 = .ok free) →
      ∃ e, ((fill tokens).run.run fst).1 = .error e)

/-- The conversions of the second and the fourth column, after some other assignment. -/
theorem stores_conversions (before : StatVfs → StatVfs) (f g : Nat → StatVfs → StatVfs) :
    Stores (fun tokens => do
      modify before
      runConversions [.storing 1 (stoul · 10) f, .storing 3 (stoul · 10) g] tokens)
      fun total free fst => g free (f total (before fst)) := by
  intro tokens fst
  simp only [runConversions_storing]
  constructor
  · intro total free htotal hfree
    rw [token] at htotal hfree
    rw [htotal, hfree]
    rfl
  · intro hnone
    cases htotal : stoul (tokens.getD 1 []) 10 with
    | error e => exact ⟨e, rfl⟩
    | ok total =>
      cases hfree : stoul (tokens.getD 3 []) 10 with
      | error e => exact ⟨e, rfl⟩
      | ok free => exact absurd ⟨total, free, htotal, hfree⟩ hnone

theorem fillBlocks_stores : Stores fillBlocks fun total free fst =>
    { fst with
      f_bsize := 4096, f_frsize := 4096, f_blocks := total, f_bfree := free,
      f_bavail := free } := by
  have h := stores_conversions (fun s => { s with f_bsize := 4096 })
    (fun blocks s => { s with f_blocks := blocks, f_frsize := s.f_bsize })
    (fun bfree s => { s with f_bfree := bfree, f_bavail := bfree })
  simp only [runConversions_storing] at h
  exact h

theorem fillInodes_stores : Stores fillInodes fun total free fst =>
    { fst with f_files := total, f_ffree := free, f_favail := free } := by
  have h := stores_conversions id (fun files s => { s with f_files := files })
    (fun ffree s => { s with f_ffree := ffree, f_favail := ffree })
  simp only [runConversions_storing] at h
  exact h

section

variable {fill : List Str → ExceptT Exception (StateM StatVfs) Unit}
  {store : Nat → Nat → StatVfs → StatVfs} (hfill : Stores fill store) (fst : StatVfs)
include hfill

theorem readDf_refused {output : Output} (h : DfRefused output) :
    (readDf fill output fst).1 = - EIO := by
  rcases output with _ | ⟨header, _ | ⟨line, rest⟩⟩
  · rfl
  · rfl
  · rcases h with h | ⟨hsix, hnone⟩
    · exact absurd h (by simp)
    · obtain ⟨e, he⟩ := (hfill (tokenize line) fst).2 hnone
      have hsix' : (tokenize line).length ≥ 6 := hsix
      rw [readDf, storeDf, if_pos hsix']
      split
      · rename_i h
        rw [h] at he
        cases he
      · rfl

/-- Where it is no error, the numbers are stored, or nothing in a line of too few columns. -/
theorem readDf_read {output : Output} (h : ¬ DfRefused output) :
    (∃ total free, 6 ≤ (dfColumns output).length ∧ DfConverts output total free ∧
      readDf fill output fst = (0, store total free fst)) ∨
    ((dfColumns output).length < 6 ∧ readDf fill output fst = (0, fst)) := by
  rcases output with _ | ⟨header, _ | ⟨line, rest⟩⟩
  · exact absurd (Or.inl (by simp)) h
  · exact absurd (Or.inl (by simp)) h
  · by_cases hsix : 6 ≤ (tokenize line).length
    · obtain ⟨total, free, htotal, hfree⟩ : ∃ total free,
          DfConverts (header :: line :: rest) total free := by
        by_contra hnone
        exact h (Or.inr ⟨hsix, hnone⟩)
      refine Or.inl ⟨total, free, hsix, ⟨htotal, hfree⟩, ?_⟩
      rw [readDf, storeDf, if_pos hsix, (hfill (tokenize line) fst).1 total free htotal hfree]
    · refine Or.inr ⟨Nat.lt_of_not_le hsix, ?_⟩
      rw [readDf, storeDf, if_neg hsix]

end

theorem blocks_read {output : Output} (h : ¬ DfRefused output) :
    ∃ fst, readDf fillBlocks output StatVfs.zero = (0, fst) ∧
      (DfNumbers output fst.f_blocks fst.f_bfree ↔ DfPlain output) ∧
      fst.f_bavail = fst.f_bfree ∧ fst.f_files = 0 ∧ fst.f_ffree = 0 ∧ fst.f_favail = 0 := by
  rcases readDf_read fillBlocks_stores StatVfs.zero h with
    ⟨total, free, hsix, hconv, hrun⟩ | ⟨hshort, hrun⟩
  · exact ⟨_, hrun, plain_of_converts hsix hconv, rfl, rfl, rfl, rfl⟩
  · exact ⟨_, hrun, plain_of_short hshort, rfl, rfl, rfl, rfl⟩

theorem inodes_read {output : Output} (h : ¬ DfRefused output) {fst : StatVfs}
    (hfiles : fst.f_files = 0) (hffree : fst.f_ffree = 0) (hfavail : fst.f_favail = 0) :
    ∃ fst', readDf fillInodes output fst = (0, fst') ∧
      (DfNumbers output fst'.f_files fst'.f_ffree ↔ DfPlain output) ∧
      fst'.f_favail = fst'.f_ffree ∧ fst'.f_blocks = fst.f_blocks ∧
      fst'.f_bfree = fst.f_bfree ∧ fst'.f_bavail = fst.f_bavail := by
  rcases readDf_read fillInodes_stores fst h with
    ⟨total, free, hsix, hconv, hrun⟩ | ⟨hshort, hrun⟩
  · exact ⟨_, hrun, plain_of_converts hsix hconv, rfl, rfl, rfl, rfl⟩
  · refine ⟨fst, hrun, ?_, hfavail.trans hffree.symm, rfl, rfl, rfl⟩
    rw [hfiles, hffree]
    exact plain_of_short hshort

/-! ## The call -/

section

variable {ε : Type} (env : Env ε) (p : Str) (w : World ε)

/-- The reply to `df` for the blocks. -/
def blocksReply : Output := (env.shell (.dfBlocks p) w.env).1

/-- The reply to `df` for the inodes, which is sent after the other. -/
def inodesReply : Output := (env.shell (.dfInodes p) (env.shell (.dfBlocks p) w.env).2).1

theorem run_statfs (hp : p ≠ ['/']) :
    ((adbnc_statfs p).run env.handle w).1 =
      let r := readDf fillBlocks (blocksReply env p w) StatVfs.zero
      if r.1 = 0 then
        let r' := readDf fillInodes (inodesReply env p w) r.2
        (r'.1, { r'.2 with f_namemax := 1024 })
      else r := by
  rw [adbnc_statfs, Program.run_ite, if_pos hp, Program.run_bind, run_adbncShell]
  dsimp only [blocksReply]
  rw [Program.run_ite]
  split <;> rfl

theorem run_statfsArray (hp : p ≠ ['/']) :
    ((adbnc_statfsArray p).run.run env.handle w).1 =
      defined (do
        let r ← readDfArray fillBlocks (blocksReply env p w) StatVfs.zero
        if r.1 = 0 then
          let r' ← readDfArray fillInodes (inodesReply env p w) r.2
          return (r'.1, { r'.2 with f_namemax := 1024 })
        else return r) := by
  rw [adbnc_statfsArray, if_pos hp, run_lift_bind, run_adbncShell, ExceptT.run_bind,
    Program.run_bind, run_ofExcept]
  dsimp only [blocksReply]
  cases readDfArray fillBlocks (env.shell (.dfBlocks p) w.env).1 StatVfs.zero with
  | none => rfl
  | some r =>
    obtain ⟨iRes, fst⟩ := r
    by_cases hzero : iRes = 0
    · subst hzero
      change ((liftM (adbncShell (.dfInodes p)) >>= _ : ExceptT Crash (Program Sys) _).run.run
        env.handle _).1 = defined (readDfArray fillInodes (inodesReply env p w) fst >>= _)
      rw [run_lift_bind, run_adbncShell, ExceptT.run_bind, Program.run_bind, run_ofExcept]
      dsimp only [inodesReply]
      cases readDfArray fillInodes _ fst with
      | none => rfl
      | some r' => rfl
    · have hends : ∀ x : ExceptT Crash (Program Sys) (Int × StatVfs), ∀ w',
          ((if iRes = 0 then x else pure (iRes, fst)).run.run env.handle w').1 =
            .ok (iRes, fst) := by
        intro x w'
        rw [if_neg hzero]
        rfl
      refine (hends _ _).trans ?_
      change _ = defined (if iRes = 0 then _ else some (iRes, fst))
      rw [if_neg hzero]
      rfl

/-- Where both replies fit, the call is the one without the array. -/
theorem statfsArray_of_fits (hp : p ≠ ['/']) (hblocks : DfFits (blocksReply env p w))
    (hinodes : DfFits (inodesReply env p w)) :
    ((adbnc_statfsArray p).run.run env.handle w).1 = .ok ((adbnc_statfs p).run env.handle w).1 := by
  rw [run_statfsArray env p w hp, run_statfs env p w hp, readDfArray_of_fits hblocks]
  simp only [readDfArray_of_fits hinodes, Option.bind_eq_bind, Option.bind_some]
  split <;> rfl

/-- Where the first reply is refused, the second is not asked for. -/
theorem statfsArray_of_refused (hp : p ≠ ['/']) (hblocks : DfFits (blocksReply env p w))
    (h : DfRefused (blocksReply env p w)) :
    ((adbnc_statfsArray p).run.run env.handle w).1 =
      .ok ((adbnc_statfs p).run env.handle w).1 := by
  have hne : (readDf fillBlocks (blocksReply env p w) StatVfs.zero).1 ≠ 0 := by
    rw [readDf_refused fillBlocks_stores StatVfs.zero h]
    decide
  rw [run_statfsArray env p w hp, run_statfs env p w hp, readDfArray_of_fits hblocks]
  dsimp only [Option.bind_eq_bind, Option.bind_some]
  rw [if_neg hne, if_neg hne]
  rfl

theorem statfsArray_undefined (hp : p ≠ ['/'])
    (h : ¬ DfFits (blocksReply env p w) ∨
      ¬ DfRefused (blocksReply env p w) ∧ ¬ DfFits (inodesReply env p w)) :
    ((adbnc_statfsArray p).run.run env.handle w).1 = .error .undefined := by
  rw [run_statfsArray env p w hp]
  by_cases hblocks : DfFits (blocksReply env p w)
  · obtain ⟨hread, hinodes⟩ := h.resolve_left (not_not_intro hblocks)
    obtain ⟨fst, hrun, -⟩ := blocks_read hread
    rw [readDfArray_of_fits hblocks, hrun]
    dsimp only [Option.bind_eq_bind, Option.bind_some]
    rw [if_pos rfl, readDfArray_of_not_fits hinodes]
    rfl
  · rw [readDfArray_of_not_fits hblocks]
    rfl

/-- A result 0 means that the fields are the numbers of the replies; a reply without them makes
the result negative. -/
def StoresNumbers (r : Int × StatVfs) : Prop :=
  (r.1 = 0 → DfNumbers (blocksReply env p w) r.2.f_blocks r.2.f_bfree ∧
    r.2.f_bavail = r.2.f_bfree ∧ DfNumbers (inodesReply env p w) r.2.f_files r.2.f_ffree ∧
    r.2.f_favail = r.2.f_ffree) ∧
  ((¬ ∃ total free, DfNumbers (blocksReply env p w) total free) ∨
    (¬ ∃ total free, DfNumbers (inodesReply env p w) total free) → r.1 < 0)

theorem storesNumbers_iff (hp : p ≠ ['/']) :
    StoresNumbers env p w ((adbnc_statfs p).run env.handle w).1 ↔
      DfRefused (blocksReply env p w) ∨ DfRefused (inodesReply env p w) ∨
        DfPlain (blocksReply env p w) ∧ DfPlain (inodesReply env p w) := by
  have hfail : ∀ {r : Int}, r = - EIO → r ≠ 0 ∧ r < 0 := by
    rintro r rfl
    decide
  rw [StoresNumbers, run_statfs env p w hp]
  dsimp only
  by_cases h1 : DfRefused (blocksReply env p w)
  · have hneg := hfail (readDf_refused fillBlocks_stores StatVfs.zero h1)
    rw [if_neg hneg.1]
    exact iff_of_true ⟨fun h => absurd h hneg.1, fun _ => hneg.2⟩ (Or.inl h1)
  obtain ⟨fst, hblocks, hnumbers, hbavail, hfiles, hffree, hfavail⟩ := blocks_read h1
  rw [hblocks, if_pos rfl, or_iff_right h1]
  by_cases h2 : DfRefused (inodesReply env p w)
  · have hneg := hfail (readDf_refused fillInodes_stores fst h2)
    exact iff_of_true ⟨fun h => absurd h hneg.1, fun _ => hneg.2⟩ (Or.inl h2)
  obtain ⟨fst', hinodes, hnumbers', hfavail', hsame, hsame', hsame''⟩ :=
    inodes_read h2 hfiles hffree hfavail
  rw [hinodes, or_iff_right h2, ← hnumbers, ← hnumbers', ← hsame, ← hsame']
  constructor
  · rintro ⟨hzero, -⟩
    obtain ⟨hfirst, -, hsecond, -⟩ := hzero rfl
    exact ⟨hfirst, hsecond⟩
  · rintro ⟨hfirst, hsecond⟩
    refine ⟨fun _ => ⟨hfirst, ?_, hsecond, hfavail'⟩, ?_⟩
    · exact hsame''.trans (hbavail.trans hsame'.symm)
    · rintro (hnone | hnone)
      · exact absurd ⟨_, _, hfirst⟩ hnone
      · exact absurd ⟨_, _, hsecond⟩ hnone

/-- The call has a result, and it is the numbers of the replies. -/
def StatfsNumbers : Prop :=
  ∃ r, ((adbnc_statfsArray p).run.run env.handle w).1 = .ok r ∧ StoresNumbers env p w r

theorem statfs_numbers_iff (hp : p ≠ ['/']) :
    StatfsNumbers env p w ↔
      DfFits (blocksReply env p w) ∧
        (DfRefused (blocksReply env p w) ∨ DfFits (inodesReply env p w) ∧
          (DfRefused (inodesReply env p w) ∨
            DfPlain (blocksReply env p w) ∧ DfPlain (inodesReply env p w))) := by
  have hstores := storesNumbers_iff env p w hp
  by_cases hundefined : ¬ DfFits (blocksReply env p w) ∨
      ¬ DfRefused (blocksReply env p w) ∧ ¬ DfFits (inodesReply env p w)
  · rw [StatfsNumbers, statfsArray_undefined env p w hp hundefined]
    refine iff_of_false (fun ⟨r, hr, _⟩ => nomatch hr) fun ⟨hblocks, hrest⟩ => ?_
    obtain ⟨hread, hinodes⟩ := hundefined.resolve_left (not_not_intro hblocks)
    exact hinodes (hrest.resolve_left hread).1
  · rw [not_or, not_not, not_and_or, not_not, not_not] at hundefined
    obtain ⟨hblocks, hrest⟩ := hundefined
    have hrun : ((adbnc_statfsArray p).run.run env.handle w).1 =
        .ok ((adbnc_statfs p).run env.handle w).1 :=
      hrest.elim (statfsArray_of_refused env p w hp hblocks)
        (statfsArray_of_fits env p w hp hblocks)
    rw [StatfsNumbers, hrun, and_iff_right hblocks]
    simp only [Except.ok.injEq, exists_eq_left']
    rw [hstores]
    exact or_congr_right' fun hread => (and_iff_right (hrest.resolve_left hread)).symm

end

def dfHeader : Str := "Filesystem 4K-blocks Used Available Use% Mounted on".toList

def tmpfsReply : Output := [dfHeader, "tmpfs 355740 35 355705 0% /dev".toList]

theorem tmpfs_plain : DfPlain tmpfsReply := by
  refine ⟨355740, 355705, ⟨⟨[3, 5, 5, 7, 4, 0], ?_⟩, by decide, ⟨[3, 5, 5, 7, 0, 5], ?_⟩,
    by decide⟩, Or.inl (by decide +kernel)⟩
  · decide +kernel
  · decide +kernel

theorem tmpfs_fits : DfFits tmpfsReply := by
  change FitsArray "tmpfs 355740 35 355705 0% /dev".toList
  decide +kernel

theorem statfs_numbers_tmpfs :
    StatfsNumbers (Env.replying tmpfsReply) "/dev".toList World.start :=
  (statfs_numbers_iff (Env.replying tmpfsReply) "/dev".toList World.start (by decide)).mpr
    ⟨tmpfs_fits, Or.inr ⟨tmpfs_fits, Or.inr ⟨tmpfs_plain, tmpfs_plain⟩⟩⟩

/-- A line that ends before the last column is taken for a success without any number. -/
def shortReply : Output := [dfHeader, "tmpfs 355740 35 355705 0%".toList]

theorem statfs_short_line :
    ((adbnc_statfsArray "/dev".toList).run.run (Env.replying shortReply).handle World.start).1.map
        (fun r => (r.1, r.2.f_blocks)) = .ok (0, 0) ∧
      ¬ StatfsNumbers (Env.replying shortReply) "/dev".toList World.start := by
  have hrun : ((adbnc_statfsArray "/dev".toList).run.run
      (Env.replying shortReply).handle World.start).1.map (fun r => (r.1, r.2.f_blocks)) =
        .ok (0, 0) := by
    decide +kernel
  refine ⟨hrun, fun ⟨r, hr, hnumbers, _⟩ => ?_⟩
  rw [hr] at hrun
  have hfst : r.1 = 0 := congrArg Prod.fst (Except.ok.inj hrun)
  have hblocks : r.2.f_blocks = 0 := congrArg Prod.snd (Except.ok.inj hrun)
  have hconverts := ((hnumbers hfst).1.converts).1
  rw [hblocks] at hconverts
  exact absurd hconverts (by decide +kernel)

end AdbncFs
