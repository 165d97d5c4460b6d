import AdbncFs.Cache.Expiry

/-!
# The cache as a map of last puts

What the cache is for: a map that holds, for each kind of output and each path, the value
last put and the time of that put, until the path is invalidated. `Refines` relates the
entries of the code, with two outputs and one time stamp each, to this map. Every call
preserves it, so the cache answers from the map or not at all.
-/

namespace AdbncFs.FileCache

open Text

/-- The value last put of each kind on each path, with the time of the put. -/
abbrev LastPut := Kind → Str → Option (Int × Output)

namespace LastPut

/-- Nothing was put. -/
def empty : LastPut := fun _ _ => none

/-- The value takes the place of the one of this kind; the other kind stays. -/
def put (k : Kind) (m : LastPut) (p : Str) (o : Output) (t : Int) : LastPut :=
  fun l q => if q = p ∧ l = k then some (t, o) else m l q

/-- Both kinds go. -/
def invalidate (m : LastPut) (p : Str) : LastPut :=
  fun l q => if q = p then none else m l q

/-- What a call at the time `t` makes of the map. -/
def apply (t : Int) (m : LastPut) : Call → LastPut
  | .put k p o => m.put k p o t
  | .invalidate p => m.invalidate p
  | .get _ _ => m

/-- The map after a history that starts with the empty map. -/
def after : History → LastPut
  | [] => empty
  | (t, call) :: H => (after H).apply t call

end LastPut

/-! ## The history behind a value -/

/-- A call that takes the place of the last put of kind `k` on `p`. -/
def Call.Ends (k : Kind) (p : Str) : Call → Prop
  | .put l q _ => q = p ∧ l = k
  | .invalidate q => q = p
  | .get _ _ => False

instance (k : Kind) (p : Str) (call : Call) : Decidable (call.Ends k p) := by
  cases call <;> unfold Call.Ends <;> infer_instance

theorem apply_of_not_ends {k : Kind} {p : Str} {call : Call} (h : ¬ call.Ends k p) (t : Int)
    (m : LastPut) : m.apply t call k p = m k p := by
  cases call with
  | put l q o => exact if_neg fun hc => h ⟨hc.1.symm, hc.2.symm⟩
  | invalidate q => exact if_neg fun hc => h hc.symm
  | get l q => rfl

/-- The map holds exactly the values of the most recent puts after the most recent
`invalidate`. -/
theorem lastPut_eq_some_iff {H : History} {k : Kind} {p : Str} {t : Int} {o : Output} :
    LastPut.after H k p = some (t, o) ↔
      ∃ later earlier, H = later ++ (t, .put k p o) :: earlier ∧
        ∀ e ∈ later, ¬ e.2.Ends k p := by
  constructor
  · intro h
    induction H with
    | nil => cases h
    | cons e H ih =>
      obtain ⟨s, call⟩ := e
      by_cases hends : call.Ends k p
      · refine ⟨[], H, ?_, by simp⟩
        cases call with
        | put l q v =>
          obtain ⟨rfl, rfl⟩ := hends
          have hput : LastPut.after ((s, .put l q v) :: H) l q = some (s, v) :=
            if_pos ⟨rfl, rfl⟩
          rw [hput, Option.some.injEq, Prod.mk.injEq] at h
          obtain ⟨rfl, rfl⟩ := h
          rfl
        | invalidate q =>
          have hnone : LastPut.after ((s, .invalidate q) :: H) k p = none := if_pos hends.symm
          rw [hnone] at h
          cases h
        | get l q => exact hends.elim
      · have hH : LastPut.after H k p = some (t, o) := (apply_of_not_ends hends s _).symm.trans h
        obtain ⟨later, earlier, rfl, hlater⟩ := ih hH
        refine ⟨(s, call) :: later, earlier, rfl, fun e he => ?_⟩
        rcases List.mem_cons.mp he with rfl | he
        · exact hends
        · exact hlater e he
  · rintro ⟨later, earlier, rfl, hlater⟩
    induction later with
    | nil => exact if_pos ⟨rfl, rfl⟩
    | cons e later ih =>
      have hfirst := hlater e List.mem_cons_self
      have htail := ih fun d hd => hlater d (List.mem_cons_of_mem e hd)
      exact (apply_of_not_ends hfirst e.1 _).trans htail

/-! ## The refinement -/

/-- The cache keeps the values of the map, and a time stamp that is at least as late as each
of their puts. -/
def Refines (c : FileCache) (m : LastPut) : Prop :=
  ∀ k p, c.kept k p = (m k p).map Prod.snd ∧
    ∀ t o, m k p = some (t, o) → ∃ it, c p = some it ∧ t ≤ it.m_Timestamp

theorem refines_empty : Refines empty LastPut.empty :=
  fun _ _ => ⟨rfl, fun _ _ h => nomatch h⟩

theorem refines_put {c : FileCache} {m : LastPut} (h : Refines c m) (k : Kind) (p : Str)
    (o : Output) {t : Int} (hm : ∀ l q s v, m l q = some (s, v) → s ≤ t) :
    Refines (c.put k p o t) (m.put k p o t) := by
  intro l q
  constructor
  · rw [kept_put, LastPut.put]
    split
    · rfl
    · exact (h l q).1
  · intro s v hs
    have hst : s ≤ t := by
      unfold LastPut.put at hs
      split at hs
      · cases hs
        exact Int.le_refl t
      · exact hm l q s v hs
    by_cases hq : q = p
    · subst hq
      obtain ⟨it, hit, htime, -⟩ := put_self k c q o t
      exact ⟨it, hit, htime ▸ hst⟩
    · rw [LastPut.put, if_neg fun hc => hq hc.1] at hs
      rw [put_of_ne hq]
      exact (h l q).2 s v hs

theorem refines_invalidate {c : FileCache} {m : LastPut} (h : Refines c m) (p : Str) :
    Refines (c.invalidate p) (m.invalidate p) := by
  intro l q
  rw [kept_invalidate, LastPut.invalidate]
  by_cases hq : q = p
  · rw [if_pos hq, if_pos hq]
    exact ⟨rfl, fun _ _ hs => nomatch hs⟩
  · rw [if_neg hq, if_neg hq, invalidate_of_ne hq]
    exact h l q

/-- A value of the map was put at the time of one of the calls. -/
theorem lastPut_mem {H : History} {k : Kind} {p : Str} {t : Int} {o : Output}
    (h : LastPut.after H k p = some (t, o)) : (t, .put k p o) ∈ H := by
  obtain ⟨later, earlier, rfl, -⟩ := lastPut_eq_some_iff.mp h
  simp

/-- Each call preserves the refinement, as long as the clock does not go back. -/
theorem refines_apply {H : History} {t : Int} (hH : ∀ e ∈ H, e.1 ≤ t) (call : Call)
    (h : Refines (after H) (LastPut.after H)) :
    Refines (call.apply t (after H)) ((LastPut.after H).apply t call) := by
  cases call with
  | put k p o => exact refines_put h k p o fun l q s v hs => hH _ (lastPut_mem hs)
  | invalidate p => exact refines_invalidate h p
  | get k p => exact h

theorem refines_after {H : History} {now : Int} (hH : Nondecreasing H now) :
    Refines (after H) (LastPut.after H) := by
  induction H generalizing now with
  | nil => exact refines_empty
  | cons e H ih =>
    have htail := nondecreasing_tail hH
    exact refines_apply htail.2 e.2 (ih htail)

/-! ## Other paths -/

def Call.path : Call → Str
  | .put _ p _ => p
  | .invalidate p => p
  | .get _ p => p

theorem put_congr {c d : FileCache} {p : Str} (h : c p = d p) (k : Kind) (o : Output) (t : Int) :
    c.put k p o t p = d.put k p o t p := by
  unfold put
  rw [h]
  cases d p <;> simp

theorem apply_of_path_ne {call : Call} {p : Str} (h : call.path ≠ p) (t : Int) (c : FileCache) :
    call.apply t c p = c p := by
  cases call with
  | put k q o => exact put_of_ne (Ne.symm h)
  | invalidate q => exact invalidate_of_ne (Ne.symm h)
  | get k q => rfl

theorem apply_congr {c d : FileCache} {p : Str} (h : c p = d p) {call : Call}
    (hcall : call.path = p) (t : Int) : call.apply t c p = call.apply t d p := by
  subst hcall
  cases call with
  | put k q o => exact put_congr h k o t
  | invalidate q => exact (invalidate_self c q).trans (invalidate_self d q).symm
  | get k q => exact h

/-- The entry of a path comes from the calls on that path alone. -/
theorem after_filter (H : History) (p : Str) :
    after (H.filter fun e => e.2.path = p) p = after H p := by
  induction H with
  | nil => rfl
  | cons e H ih =>
    obtain ⟨t, call⟩ := e
    by_cases h : call.path = p
    · rw [List.filter_cons_of_pos (by simpa using h)]
      exact apply_congr ih h t
    · rw [List.filter_cons_of_neg (by simpa using h)]
      exact ih.trans (apply_of_path_ne h t _).symm

/-! ## What a get returns -/

/-- A get returns nothing or the value of the map, and it does return that value when it was
put less than 120 seconds ago. Only the calls on its own path matter. -/
theorem get_refines_lastPut {H : History} {now : Int} (hH : Nondecreasing H now) (k : Kind)
    (p : Str) :
    ((after H).get k p now = none ∨
        ∃ t o, LastPut.after H k p = some (t, o) ∧ (after H).get k p now = some o) ∧
      (∀ t o, LastPut.after H k p = some (t, o) → now < t + iFileDataCacheSecondsValid →
        (after H).get k p now = some o) ∧
      (after (H.filter fun e => e.2.path = p)).get k p now = (after H).get k p now := by
  obtain ⟨hkept, hstamp⟩ := refines_after hH k p
  refine ⟨?_, fun t o hm hnow => ?_, get_congr (after_filter H p) now⟩
  · cases hget : (after H).get k p now with
    | none => exact Or.inl rfl
    | some o =>
      rw [kept_of_get hget] at hkept
      obtain ⟨⟨t, v⟩, hm, rfl⟩ := Option.map_eq_some_iff.mp hkept.symm
      exact Or.inr ⟨t, v, hm, rfl⟩
  · obtain ⟨it, hit, hle⟩ := hstamp t o hm
    refine get_eq_some.mpr ⟨it, hit, by omega, ?_⟩
    rw [kept, hit, hm] at hkept
    exact hkept

/-- A readlink output put at 100 and asked for at 200. -/
theorem get_refines_refreshRun :
    ((after refreshRun).get .readLink ['/', 'a'] 200 = none ∨
        ∃ t o, LastPut.after refreshRun .readLink ['/', 'a'] = some (t, o) ∧
          (after refreshRun).get .readLink ['/', 'a'] 200 = some o) ∧
      (∀ t o, LastPut.after refreshRun .readLink ['/', 'a'] = some (t, o) →
        200 < t + iFileDataCacheSecondsValid →
          (after refreshRun).get .readLink ['/', 'a'] 200 = some o) ∧
      (after (refreshRun.filter fun e => e.2.path = ['/', 'a'])).get .readLink ['/', 'a'] 200 =
        (after refreshRun).get .readLink ['/', 'a'] 200 :=
  get_refines_lastPut (⟨by simp [refreshRun], by simp [refreshRun]⟩ : Nondecreasing refreshRun 200)
    .readLink ['/', 'a']

end AdbncFs.FileCache
