import Mathlib.Data.List.Nodup
import Mathlib.Tactic.IntervalCases
import AdbncFs.System.Directories

/-!
# A listing and what is passed on of it

`adbnc_readdir` leaves out the first two entries of a listing, whatever they are. A reading
from the offset 0 that is never refused therefore passes on the right names if and only if
`.` and `..` are at these two positions, or in the places of entries that do not exist.
-/

namespace AdbncFs

open Text Interaction Function

section

variable {ε β : Type} {env : Env ε}

/-! ## The loop when nothing is refused -/

/-- A filler that takes every entry. -/
def Filler.NeverRefuses (filler : Filler β) : Prop :=
  ∀ b name statBuf off, (filler b name statBuf off).1 = false

theorem neverRefuses_logged {filler : Filler β} (h : filler.NeverRefuses) :
    (logged filler).NeverRefuses := fun b name statBuf off => h b.1 name statBuf off

theorem loop_append (p : Str) {filler : Filler β} (hnever : filler.NeverRefuses) (o n i : Int)
    (entries more : List Str) (b : β) (w : World ε) :
    (adbnc_readdir.loop p filler o n i (entries ++ more) b).run env.handle w =
      (adbnc_readdir.loop p filler o n (i + entries.length) more
        ((adbnc_readdir.loop p filler o n i entries b).run env.handle w).1).run env.handle
        ((adbnc_readdir.loop p filler o n i entries b).run env.handle w).2 := by
  induction entries generalizing i b w with
  | nil =>
    rw [List.length_nil, Int.natCast_zero, Int.add_zero]
    rfl
  | cons entry entries ih =>
    rcases le_or_gt n i with hn | hn
    · rw [loop_stop p filler hn, loop_stop p filler hn, loop_stop p filler (by omega)]
      rfl
    have hlen : i + (entry :: entries).length = i + 1 + entries.length := by
      rw [List.length_cons]
      omega
    rw [hlen, List.cons_append]
    by_cases hskip : i < 2 ∨ i < o
    · rw [loop_skip p filler hn hskip, loop_skip p filler hn hskip]
      exact ih _ _ _
    rw [run_loop_cons p filler hn hskip, run_loop_cons p filler hn hskip]
    dsimp only
    rw [hnever, if_neg Bool.false_ne_true, if_neg Bool.false_ne_true]
    split
    · exact ih _ _ _
    · exact ih _ _ _

/-- The world in which the loop comes to the entry behind `before`. -/
def worldBehind (env : Env ε) (p : Str) (n : Int) (before : List Str) (w : World ε) : World ε :=
  ((adbnc_readdir.loop p (fun _ _ _ _ => (false, ())) 0 n 0 before ()).run env.handle w).2

/-- `adbnc_getattr` succeeds for the entry when the loop comes to it. -/
def FoundBehind (env : Env ε) (p : Str) (n : Int) (before : List Str) (entry : Str)
    (w : World ε) : Prop :=
  ((adbnc_getattr (fullEntryPath p entry)).run env.handle (worldBehind env p n before w)).1.1 = 0

instance (p : Str) (n : Int) (before : List Str) (entry : Str) (w : World ε) :
    Decidable (FoundBehind env p n before entry w) :=
  inferInstanceAs (Decidable (_ = _))

/-- The world after one turn of the loop. -/
theorem loop_one_world (p : Str) {filler : Filler β} (hnever : filler.NeverRefuses) {n i : Int}
    (entry : Str) (b : β) (w : World ε) :
    ((adbnc_readdir.loop p filler 0 n i [entry] b).run env.handle w).2 =
      if 2 ≤ i ∧ i < n then ((adbnc_getattr (fullEntryPath p entry)).run env.handle w).2
      else w := by
  rcases le_or_gt n i with hn | hn
  · rw [loop_stop p filler hn, if_neg (by omega)]
    rfl
  by_cases hskip : i < 2 ∨ i < 0
  · rw [loop_skip p filler hn hskip, if_neg (by omega)]
    rfl
  have hpos : 2 ≤ i ∧ i < n := ⟨by omega, hn⟩
  rw [run_loop_cons p filler hn hskip, if_pos hpos]
  dsimp only
  rw [hnever, if_neg Bool.false_ne_true]
  split <;> rfl

/-- What one turn of the loop passes on. -/
theorem loop_one_names (p : Str) {filler : Filler β} (hnever : filler.NeverRefuses) {n i : Int}
    (entry : Str) (b : β × List Offer) (w : World ε) :
    ((adbnc_readdir.loop p (logged filler) 0 n i [entry] b).run env.handle w).1.2.map Offer.name =
      b.2.map Offer.name ++
        if 2 ≤ i ∧ i < n ∧ ((adbnc_getattr (fullEntryPath p entry)).run env.handle w).1.1 = 0
        then [entry] else [] := by
  rcases le_or_gt n i with hn | hn
  · rw [loop_stop p (logged filler) hn, if_neg (by omega), List.append_nil]
    rfl
  by_cases hskip : i < 2 ∨ i < 0
  · rw [loop_skip p (logged filler) hn hskip, if_neg (by omega), List.append_nil]
    rfl
  rw [run_loop_cons p (logged filler) hn hskip]
  generalize (adbnc_getattr (fullEntryPath p entry)).run env.handle w = a
  dsimp only
  rw [neverRefuses_logged hnever, if_neg Bool.false_ne_true]
  by_cases ha : a.1.1 = 0
  · rw [if_neg (not_not_intro ha), if_pos ⟨by omega, hn, ha⟩]
    exact List.map_append
  · rw [if_pos ha, if_neg fun h => ha h.2.2]
    exact (List.append_nil _).symm

/-- The world does not depend on the filler. -/
theorem run_loop_world (p : Str) {filler : Filler β} (hnever : filler.NeverRefuses) (n : Int)
    (entries : List Str) (b : β) (w : World ε) :
    ((adbnc_readdir.loop p filler 0 n 0 entries b).run env.handle w).2 =
      worldBehind env p n entries w := by
  induction entries using List.reverseRecOn with
  | nil => rfl
  | append_singleton entries entry ih =>
    rw [worldBehind, loop_append p hnever, loop_append p fun _ _ _ _ => rfl,
      loop_one_world p hnever, loop_one_world p fun _ _ _ _ => rfl, ih]
    rfl

/-! ## What is passed on -/

/-- The entries of a listing that satisfy `P` at their positions. -/
def entriesAt (P : Nat → Str → Prop) [∀ j entry, Decidable (P j entry)] (entries : List Str) :
    List Str := (entries.zipIdx.filter fun x => P x.2 x.1).map Prod.fst

theorem entriesAt_concat (P : Nat → Str → Prop) [∀ j entry, Decidable (P j entry)]
    (entries : List Str) (entry : Str) :
    entriesAt P (entries ++ [entry]) =
      entriesAt P entries ++ if P entries.length entry then [entry] else [] := by
  rw [entriesAt, List.zipIdx_append, List.filter_append, List.map_append, Nat.zero_add]
  by_cases h : P entries.length entry
  · rw [if_pos h, List.zipIdx_singleton, List.filter_cons_of_pos (by simpa using h)]
    rfl
  · rw [if_neg h, List.zipIdx_singleton, List.filter_cons_of_neg (by simpa using h)]
    rfl

theorem entriesAt_congr {P Q : Nat → Str → Prop} [∀ j entry, Decidable (P j entry)]
    [∀ j entry, Decidable (Q j entry)] {entries : List Str}
    (h : ∀ j entry, entries[j]? = some entry → (P j entry ↔ Q j entry)) :
    entriesAt P entries = entriesAt Q entries := by
  refine congrArg (List.map Prod.fst) (List.filter_congr fun x hx => ?_)
  exact decide_eq_decide.mpr (h x.2 x.1 (List.mem_zipIdx_iff_getElem?.mp hx))

/-- Where no name is listed twice, the positions can be told from the names. -/
theorem entriesAt_inj {P Q : Nat → Str → Prop} [∀ j entry, Decidable (P j entry)]
    [∀ j entry, Decidable (Q j entry)] {entries : List Str} (hnodup : entries.Nodup) :
    entriesAt P entries = entriesAt Q entries ↔
      ∀ j entry, entries[j]? = some entry → (P j entry ↔ Q j entry) := by
  refine ⟨fun h => ?_, entriesAt_congr⟩
  have hmem : ∀ (R : Nat → Str → Prop) [∀ j entry, Decidable (R j entry)] (j : Nat) (entry : Str),
      entries[j]? = some entry → (entry ∈ entriesAt R entries ↔ R j entry) := by
    intro R _ j entry hj
    rw [entriesAt, List.mem_map]
    constructor
    · rintro ⟨⟨entry', k⟩, hx, rfl⟩
      obtain ⟨hk, hR⟩ := List.mem_filter.mp hx
      have hk := List.mem_zipIdx_iff_getElem?.mp hk
      have hkj : k = j := (List.getElem?_inj (List.getElem?_eq_some_iff.mp hk).1 hnodup).mp
        (hk.trans hj.symm)
      exact hkj ▸ of_decide_eq_true hR
    · intro hR
      refine ⟨(entry, j), List.mem_filter.mpr ⟨?_, decide_eq_true hR⟩, rfl⟩
      exact List.mem_zipIdx_iff_getElem?.mpr hj
  intro j entry hj
  rw [← hmem P j entry hj, ← hmem Q j entry hj, h]

/-- Entries that satisfy a further condition are all entries only where all satisfy it. -/
theorem entriesAt_and {P Q : Nat → Str → Prop} [∀ j entry, Decidable (P j entry)]
    [∀ j entry, Decidable (Q j entry)] (entries : List Str) :
    entriesAt (fun j entry => P j entry ∧ Q j entry) entries = entriesAt Q entries ↔
      ∀ j entry, entries[j]? = some entry → Q j entry → P j entry := by
  constructor
  · intro h j entry hj hQ
    have hlen := congrArg List.length h
    rw [entriesAt, entriesAt, List.length_map, List.length_map] at hlen
    have hfilter : (entries.zipIdx.filter fun x => P x.2 x.1 ∧ Q x.2 x.1) =
        (entries.zipIdx.filter fun x => Q x.2 x.1).filter fun x => P x.2 x.1 := by
      rw [List.filter_filter]
      exact List.filter_congr fun x _ => Bool.decide_and _ _
    rw [hfilter] at hlen
    have hmem : (entry, j) ∈ entries.zipIdx.filter fun x => Q x.2 x.1 :=
      List.mem_filter.mpr ⟨List.mem_zipIdx_iff_getElem?.mpr hj, decide_eq_true hQ⟩
    exact of_decide_eq_true (List.length_filter_eq_length_iff.mp hlen _ hmem)
  · intro h
    refine entriesAt_congr fun j entry hj => ?_
    exact ⟨fun h' => h'.2, fun hQ => ⟨h j entry hj hQ, hQ⟩⟩

theorem entriesAt_const (P : Str → Bool) (entries : List Str) :
    entriesAt (fun _ entry => P entry = true) entries = entries.filter P := by
  induction entries using List.reverseRecOn with
  | nil => rfl
  | append_singleton entries entry ih =>
    rw [entriesAt_concat, ih, List.filter_append]
    cases h : P entry <;> simp [h]

/-- A reading from the offset 0 passes on what exists from the position 2 on. -/
theorem loop_names (p : Str) {filler : Filler β} (hnever : filler.NeverRefuses) (n : Int)
    (entries : List Str) (b : β) (w : World ε) :
    ((adbnc_readdir.loop p (logged filler) 0 n 0 entries (b, [])).run env.handle w).1.2.map
        Offer.name =
      entriesAt (fun j entry => 2 ≤ j ∧ (j : Int) < n ∧
        FoundBehind env p n (entries.take j) entry w) entries := by
  induction entries using List.reverseRecOn with
  | nil => rfl
  | append_singleton entries entry ih =>
    rw [loop_append p (neverRefuses_logged hnever), loop_one_names p hnever, ih,
      run_loop_world p (neverRefuses_logged hnever), entriesAt_concat, Int.zero_add]
    congr 1
    · refine entriesAt_congr fun j e hj => ?_
      have hlt : j < entries.length := (List.getElem?_eq_some_iff.mp hj).1
      rw [List.take_append_of_le_length (by omega)]
    · rw [List.take_left]
      exact if_congr (and_congr_left' (by omega)) rfl rfl

/-- The entries of a listing that a client is to see: those other than `.` and `..` that
exist when the loop comes to them. -/
def visibleEntries (env : Env ε) (p : Str) (output : Output) (w : World ε) : List Str :=
  entriesAt (fun j entry => entry ≠ ['.'] ∧ entry ≠ ['.', '.'] ∧
    FoundBehind env p (sizeToInt output.length) (output.take j) entry w) output

/-- A reading that is never refused passes on the visible entries of a listing, if and only
if, among the entries that exist, those at the positions that the loop leaves out are just `.`
and `..`. -/
theorem readdir_visible_iff {openDirs : OpenDirs} {p : Str} {output : Output}
    (hstored : openDirs p = some output) (hnodup : output.Nodup) {filler : Filler β}
    (hnever : filler.NeverRefuses) (b : β) (w : World ε) :
    ((adbnc_readdir openDirs p (b, []) (logged filler) 0).run env.handle w).1.2.2.map Offer.name =
        visibleEntries env p output w ↔
      ∀ j entry, output[j]? = some entry →
        FoundBehind env p (sizeToInt output.length) (output.take j) entry w →
        (2 ≤ j ∧ (j : Int) < sizeToInt output.length ↔ entry ≠ ['.'] ∧ entry ≠ ['.', '.']) := by
  have hrun : ((adbnc_readdir openDirs p (b, []) (logged filler) 0).run env.handle w).1.2.2 =
      ((adbnc_readdir.loop p (logged filler) 0 (sizeToInt output.length) 0 output
        (b, [])).run env.handle w).1.2 := by
    rw [adbnc_readdir, hstored]
    dsimp only
    rw [Program.run_bind]
    rfl
  rw [hrun, loop_names p hnever, visibleEntries, entriesAt_inj hnodup]
  refine forall_congr' fun j => forall_congr' fun entry => forall_congr' fun _ => ?_
  constructor
  · intro h hfound
    constructor
    · intro hj
      have hvisible := h.mp ⟨hj.1, hj.2, hfound⟩
      exact ⟨hvisible.1, hvisible.2.1⟩
    · intro hname
      have hpassed := h.mpr ⟨hname.1, hname.2, hfound⟩
      exact ⟨hpassed.1, hpassed.2.1⟩
  · intro h
    constructor
    · rintro ⟨h2, hn, hfound⟩
      have hname := (h hfound).mp ⟨h2, hn⟩
      exact ⟨hname.1, hname.2, hfound⟩
    · rintro ⟨hdot, hdotdot, hfound⟩
      have hj := (h hfound).mpr ⟨hdot, hdotdot⟩
      exact ⟨hj.1, hj.2, hfound⟩

end

/-- A filler that takes every entry and keeps nothing. -/
def acceptAll : Filler Unit := fun _ _ _ _ => (false, ())

/-- The map with the listing of one directory. -/
def openDirsWith (p : Str) (output : Output) : OpenDirs := update (fun _ => none) p (some output)

/-- A directory whose listing begins with its two dots. -/
theorem readdir_visible_dotsFirst :
    ((adbnc_readdir (openDirsWith ['/', 'd'] [['.'], ['.', '.'], ['a']]) ['/', 'd'] ((), [])
      (logged acceptAll) 0).run Env.obliging.handle World.start).1.2.2.map Offer.name =
        visibleEntries Env.obliging ['/', 'd'] [['.'], ['.', '.'], ['a']] World.start := by
  have hstored : openDirsWith ['/', 'd'] [['.'], ['.', '.'], ['a']] ['/', 'd'] =
      some [['.'], ['.', '.'], ['a']] := rfl
  refine (readdir_visible_iff hstored (by decide) (fun _ _ _ _ => rfl) ()
    World.start).mpr fun j entry hj _ => ?_
  have hlt : j < 3 := (List.getElem?_eq_some_iff.mp hj).1
  interval_cases j
  · cases hj
    decide
  · cases hj
    decide
  · cases hj
    decide

/-- A file whose name sorts before the dots is not passed on, and the directory above is. -/
theorem readdir_drops_file :
    (List.Nodup [['!', 'x'], ['.'], ['.', '.'], ['a']]) ∧
      ((adbnc_readdir (openDirsWith ['/', 'd'] [['!', 'x'], ['.'], ['.', '.'], ['a']]) ['/', 'd']
        ((), []) (logged acceptAll) 0).run Env.obliging.handle World.start).1.2.2.map Offer.name =
          [['.', '.'], ['a']] ∧
      visibleEntries Env.obliging ['/', 'd'] [['!', 'x'], ['.'], ['.', '.'], ['a']] World.start =
        [['!', 'x'], ['a']] := by
  decide +kernel

end AdbncFs
