import Mathlib.Logic.Function.Basic
import AdbncFs.System.Linking

/-!
# Reading directories

The callbacks of `adbncfs.cpp` that list directories. The listings that `adbnc_opendir` gets
from the device are kept in `openDirs` under their paths; `adbnc_readdir` hands their entries
to the filler of FUSE. A filler is any function that takes an entry into its buffer or
refuses it; `logged` writes down what it was offered.
-/

namespace AdbncFs

open Text Interaction Function

/-- The map `openDirs`. -/
abbrev OpenDirs := Str → Option Output

/-- `adbnc_opendir`, with the map after it. -/
def adbnc_opendir (openDirs : OpenDirs) (pcPath : Str) : Program Sys (Int × OpenDirs) := do
  let output ← adbncShell (.ls pcPath)
  if output ≠ [] then
    match openDirs pcPath with
    | none => return (0, update openDirs pcPath (some output))
    | some _ => return (0, openDirs)
  else return (- EIO, openDirs)

/-- `adbnc_releasedir`, with the map after it. -/
def adbnc_releasedir (openDirs : OpenDirs) (pcPath : Str) : Int × OpenDirs :=
  (0, update openDirs pcPath none)

/-! ## `adbnc_readdir` -/

/-- The filler of FUSE: with its buffer, the name of an entry, its attributes and the offset
behind it, whether it refuses the entry, and its buffer after that. -/
abbrev Filler (β : Type) := β → Str → Stat → Int → Bool × β

def fullEntryPath (pcPath entry : Str) : Str :=
  (if pcPath ≠ ['/'] then pcPath ++ ['/'] else pcPath) ++ entry

/-- The loop over the entries from the position `i` on. -/
def adbnc_readdir.loop {β : Type} (pcPath : Str) (filler : Filler β)
    (iOffset iNumDirectoryEntries : Int) : Int → List Str → β → Program Sys β
  | _, [], vpBuf => return vpBuf
  | i, entry :: entries, vpBuf =>
    let next := loop pcPath filler iOffset iNumDirectoryEntries (i + 1) entries
    if i < iNumDirectoryEntries then
      if i < 2 then next vpBuf
      else if i < iOffset then next vpBuf
      else do
        let (iRes, statBuf) ← adbnc_getattr (fullEntryPath pcPath entry)
        if iRes ≠ 0 then next vpBuf
        else if (filler vpBuf entry statBuf (i + 1)).1 then
          return (filler vpBuf entry statBuf (i + 1)).2
        else next (filler vpBuf entry statBuf (i + 1)).2
    else return vpBuf

/-- `adbnc_readdir`, with the buffer after it. -/
def adbnc_readdir {β : Type} (openDirs : OpenDirs) (pcPath : Str) (vpBuf : β) (filler : Filler β)
    (iOffset : Int) : Program Sys (Int × β) := do
  match openDirs pcPath with
  | none => return (-EBADF, vpBuf)
  | some output =>
    let vpBuf ← adbnc_readdir.loop pcPath filler iOffset (sizeToInt output.length) 0 output vpBuf
    return (0, vpBuf)

/-! ## One turn of the loop -/

section

variable {ε β : Type} {env : Env ε} (p : Str) (filler : Filler β) {o n i : Int}

theorem loop_stop (h : n ≤ i) (entries : List Str) (b : β) :
    adbnc_readdir.loop p filler o n i entries b = pure b := by
  cases entries with
  | nil => rfl
  | cons entry entries =>
    unfold adbnc_readdir.loop
    exact if_neg (by omega)

theorem loop_skip (hn : i < n) (h : i < 2 ∨ i < o) (entry : Str) (entries : List Str) (b : β) :
    adbnc_readdir.loop p filler o n i (entry :: entries) b =
      adbnc_readdir.loop p filler o n (i + 1) entries b := by
  rw [adbnc_readdir.loop, if_pos hn]
  split
  · rfl
  · rw [if_pos (by omega)]

theorem run_loop_cons (hn : i < n) (h : ¬ (i < 2 ∨ i < o)) (entry : Str) (entries : List Str)
    (b : β) (w : World ε) :
    (adbnc_readdir.loop p filler o n i (entry :: entries) b).run env.handle w =
      let r := (adbnc_getattr (fullEntryPath p entry)).run env.handle w
      let f := filler b entry r.1.2 (i + 1)
      if r.1.1 ≠ 0 then (adbnc_readdir.loop p filler o n (i + 1) entries b).run env.handle r.2
      else if f.1 = true then (f.2, r.2)
      else (adbnc_readdir.loop p filler o n (i + 1) entries f.2).run env.handle r.2 := by
  rw [adbnc_readdir.loop, if_pos hn, if_neg (by omega), if_neg (by omega), Program.run_bind]
  dsimp only
  split
  · rfl
  · split <;> rfl

end

/-! ## What a filler is offered -/

structure Offer where
  name : Str
  off : Int
  refused : Bool
  deriving DecidableEq

/-- The filler, with a log of what it was offered. -/
def logged {β : Type} (filler : Filler β) : Filler (β × List Offer) := fun buf name statBuf off =>
  let r := filler buf.1 name statBuf off
  (r.1, (r.2, buf.2 ++ [⟨name, off, r.1⟩]))

section

variable {ε β : Type} {env : Env ε}

/-- While `I` holds, `adbnc_getattr` succeeds for the same paths, those that are `found`. -/
def AnswersFixed (env : Env ε) (I : World ε → Prop) (found : Str → Bool) : Prop :=
  ∀ w, I w → ∀ p, I ((adbnc_getattr p).run env.handle w).2 ∧
    (((adbnc_getattr p).run env.handle w).1.1 = 0 ↔ found p = true)

/-- The cache keeps of the stat command what it answers. -/
def KeepsStat {ε : Type} (answer : Str → Output) (w : World ε) : Prop :=
  ∀ p o, w.fileCache.kept .stat p = some o → o = answer p

/-- This is so when the stat command always answers the same for a path. -/
theorem answersFixed_of_stat {answer : Str → Output}
    (h : ∀ p e, (env.shell (.stat p) e).1 = answer p) :
    AnswersFixed env (KeepsStat answer) fun p => (attributes (answer p)).1 = 0 := by
  intro w hw p
  have hout : ((statOutput p).run env.handle w).1 = answer p ∧
      KeepsStat answer ((statOutput p).run env.handle w).2 := by
    rw [run_statOutput]
    cases hget : w.fileCache.getStat p (env.time w.env).1 with
    | some o => exact ⟨hw p o (FileCache.kept_of_get hget), hw⟩
    | none =>
      refine ⟨h p _, fun q o hq => ?_⟩
      rw [FileCache.putStat, FileCache.kept_put] at hq
      split at hq
      · rename_i hqp
        rw [← Option.some.inj hq, hqp.1]
        exact h p _
      · exact hw q o hq
  rw [adbnc_getattr, Program.run_bind, Program.run_pure, hout.1]
  exact ⟨hout.2, by simp⟩

/-- The entries that can be offered, from the position `i` on, with the offsets behind
them. -/
def entriesFrom (found : Str → Bool) (p : Str) (n : Int) : Int → List Str → List (Str × Int)
  | _, [] => []
  | i, entry :: entries =>
    if 2 ≤ i ∧ i < n ∧ found (fullEntryPath p entry) = true then
      (entry, i + 1) :: entriesFrom found p n (i + 1) entries
    else entriesFrom found p n (i + 1) entries

theorem lt_of_mem_entriesFrom {found : Str → Bool} {p : Str} {n i : Int} {entries : List Str}
    {x : Str × Int} (h : x ∈ entriesFrom found p n i entries) : i < x.2 ∧ 2 < x.2 ∧ x.2 ≤ n := by
  induction entries generalizing i with
  | nil => cases h
  | cons entry entries ih =>
    unfold entriesFrom at h
    split at h
    · rename_i hc
      rcases List.mem_cons.mp h with rfl | h
      · dsimp only
        omega
      · have := ih h
        omega
    · have := ih h
      omega

/-- The offsets increase. -/
theorem pairwise_entriesFrom (found : Str → Bool) (p : Str) (n i : Int) (entries : List Str) :
    (entriesFrom found p n i entries).Pairwise fun x y => x.2 < y.2 := by
  induction entries generalizing i with
  | nil => exact List.Pairwise.nil
  | cons entry entries ih =>
    unfold entriesFrom
    split
    · exact List.Pairwise.cons (fun y hy => (lt_of_mem_entriesFrom hy).1) (ih _)
    · exact ih _

theorem entriesFrom_eq_nil {found : Str → Bool} {p : Str} {n i : Int} {entries : List Str}
    (h : n ≤ i) : entriesFrom found p n i entries = [] := by
  refine List.eq_nil_iff_forall_not_mem.mpr fun x hx => ?_
  have := lt_of_mem_entriesFrom hx
  omega

theorem filter_entriesFrom_skip {found : Str → Bool} {p : Str} {o n i : Int}
    (h : i < 2 ∨ i < o) (entry : Str) (entries : List Str) :
    (entriesFrom found p n i (entry :: entries)).filter (fun x => o < x.2) =
      (entriesFrom found p n (i + 1) entries).filter fun x => o < x.2 := by
  rw [entriesFrom]
  split
  · exact List.filter_cons_of_neg (by simp; omega)
  · rfl

/-- What the loop offers: the entries behind the offset, up to the first that is refused. -/
theorem loop_offers {I : World ε → Prop} {found : Str → Bool} (hfix : AnswersFixed env I found)
    (p : Str) (filler : Filler β) (o n i : Int) (entries : List Str) (b : β) (log : List Offer)
    {w : World ε} (hw : I w) :
    ∃ offers rest,
      ((adbnc_readdir.loop p (logged filler) o n i entries (b, log)).run env.handle w).1.2 =
        log ++ offers ∧
      (entriesFrom found p n i entries).filter (fun x => o < x.2) =
        offers.map (fun x => (x.name, x.off)) ++ rest ∧
      (∀ x ∈ offers.dropLast, x.refused = false) ∧
      ((∀ x ∈ offers, x.refused = false) → rest = []) := by
  induction entries generalizing i b log w with
  | nil => exact ⟨[], [], (List.append_nil log).symm, rfl, by simp, fun _ => rfl⟩
  | cons entry entries ih =>
    rcases le_or_gt n i with hn | hn
    · refine ⟨[], [], ?_, ?_, by simp, fun _ => rfl⟩
      · rw [loop_stop p (logged filler) hn, List.append_nil]
        rfl
      · rw [entriesFrom_eq_nil hn]
        rfl
    by_cases hskip : i < 2 ∨ i < o
    · rw [loop_skip p (logged filler) hn hskip, filter_entriesFrom_skip hskip]
      exact ih (i + 1) b log hw
    obtain ⟨hI, hfound⟩ := hfix w hw (fullEntryPath p entry)
    rw [run_loop_cons p (logged filler) hn hskip]
    revert hI hfound
    generalize (adbnc_getattr (fullEntryPath p entry)).run env.handle w = r
    intro hI hfound
    dsimp only
    by_cases hr : r.1.1 = 0
    · have hkept : 2 ≤ i ∧ i < n ∧ found (fullEntryPath p entry) = true :=
        ⟨by omega, hn, hfound.mp hr⟩
      rw [if_neg (not_not_intro hr), entriesFrom, if_pos hkept,
        List.filter_cons_of_pos (by simp; omega)]
      by_cases hfill : (logged filler (b, log) entry r.1.2 (i + 1)).1 = true
      · rw [if_pos hfill]
        refine ⟨[⟨entry, i + 1, true⟩], _, ?_, rfl, by simp, by simp⟩
        exact congrArg (fun x => log ++ [(⟨entry, i + 1, x⟩ : Offer)]) hfill
      · rw [if_neg hfill]
        have hacc : (filler b entry r.1.2 (i + 1)).1 = false := Bool.eq_false_iff.mpr hfill
        obtain ⟨offers, rest, hlog, heq, hdrop, hrest⟩ := ih (i + 1)
          (filler b entry r.1.2 (i + 1)).2 (log ++ [⟨entry, i + 1, false⟩]) hI
        refine ⟨⟨entry, i + 1, false⟩ :: offers, rest, ?_, congrArg (_ :: ·) heq, ?_, ?_⟩
        · rw [List.append_cons, ← hlog, ← hacc]
          rfl
        · intro x hx
          cases offers with
          | nil => cases hx
          | cons y offers =>
            rcases List.mem_cons.mp hx with rfl | hx
            · rfl
            · exact hdrop x hx
        · exact fun h => hrest fun x hx => h x (List.mem_cons_of_mem _ hx)
    · rw [if_pos hr, entriesFrom, if_neg fun h => hr (hfound.mpr h.2.2)]
      exact ih (i + 1) b log hI

end

end AdbncFs
