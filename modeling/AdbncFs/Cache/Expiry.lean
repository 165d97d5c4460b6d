import AdbncFs.Cache.FileCache

/-!
# How old a cached value can be

A history is a run of calls on the cache with the time of each, the most recent call first.
The code keeps one time stamp for the two outputs of a path, so a put of one output also
makes the other one young again. `entry_spec` gives the entry of a path after any history;
`expiry_iff` says when a value that is read was put less than 120 seconds ago: exactly when
it was not an old value refreshed by a put of the other kind.
-/

namespace AdbncFs.FileCache

open Text

/-- The calls on the cache. -/
inductive Call
  | put (k : Kind) (pcPath : Str) (output : Output)
  | invalidate (pcPath : Str)
  | get (k : Kind) (pcPath : Str)

/-- The calls made so far with their times, the most recent one first. -/
abbrev History := List (Int × Call)

/-- The clock never goes back, and it is `now` at the end. -/
def Nondecreasing (H : History) (now : Int) : Prop :=
  (H.map Prod.fst).Pairwise (· ≥ ·) ∧ ∀ e ∈ H, e.1 ≤ now

def Call.apply (t : Int) (c : FileCache) : Call → FileCache
  | .put k p o => c.put k p o t
  | .invalidate p => c.invalidate p
  | .get _ _ => c

/-- The cache after a history that starts with the empty cache. -/
def after : History → FileCache
  | [] => empty
  | (t, call) :: H => call.apply t (after H)

/-- The time of the most recent put of kind `k` on `p`. -/
def lastPut (k : Kind) (p : Str) : History → Option Int
  | [] => none
  | (t, .put l q _) :: H => if l = k ∧ q = p then some t else lastPut k p H
  | _ :: H => lastPut k p H

/-- The time of the most recent put of kind `k` on `p` that no `invalidate` of `p`
followed. -/
def livePut (k : Kind) (p : Str) : History → Option Int
  | [] => none
  | (t, .put l q _) :: H => if l = k ∧ q = p then some t else livePut k p H
  | (_, .invalidate q) :: H => if q = p then none else livePut k p H
  | (_, .get _ _) :: H => livePut k p H

theorem lastPut_of_livePut {k : Kind} {p : Str} {H : History} {s : Int}
    (h : livePut k p H = some s) : lastPut k p H = some s := by
  induction H with
  | nil => cases h
  | cons e H ih =>
    obtain ⟨t, call⟩ := e
    cases call with
    | put l q o =>
      unfold livePut at h
      unfold lastPut
      split at h
      · rename_i hc
        rw [if_pos hc, h]
      · rename_i hc
        rw [if_neg hc]
        exact ih h
    | invalidate q =>
      unfold livePut at h
      split at h
      · cases h
      · exact ih h
    | get l q => exact ih h

theorem exists_of_lastPut {k : Kind} {p : Str} {H : History} {s : Int}
    (h : lastPut k p H = some s) : ∃ e ∈ H, e.1 = s := by
  induction H with
  | nil => cases h
  | cons e H ih =>
    have hrec : lastPut k p H = some s → ∃ e' ∈ e :: H, e'.1 = s := fun h' =>
      (ih h').imp fun _ he => ⟨List.mem_cons_of_mem _ he.1, he.2⟩
    obtain ⟨t, call⟩ := e
    cases call with
    | put l q o =>
      unfold lastPut at h
      split at h
      · exact ⟨_, List.mem_cons_self, Option.some.inj h⟩
      · exact hrec h
    | invalidate q => exact hrec h
    | get l q => exact hrec h

/-- The time stamp of an entry belongs to the later of the two live puts. -/
def Stamped (it : Entry) (p : Str) (H : History) : Prop :=
  (∃ k, livePut k p H = some it.m_Timestamp) ∧
    (∀ k s, livePut k p H = some s → s ≤ it.m_Timestamp) ∧
    ∀ k, (it.output k).isSome = (livePut k p H).isSome

/-- What `entry_spec` says of one path. -/
def EntrySpec (entry : Option Entry) (p : Str) (H : History) : Prop :=
  match entry with
  | none => ∀ k, livePut k p H = none
  | some it => Stamped it p H

theorem EntrySpec.output_isSome {entry : Option Entry} {p : Str} {H : History}
    (h : EntrySpec entry p H) (k : Kind) :
    (entry.bind (·.output k)).isSome = (livePut k p H).isSome := by
  cases entry with
  | none => rw [h k]; rfl
  | some it => exact h.2.2 k

theorem stamped_put {H : History} {t : Int} (hH : ∀ e ∈ H, e.1 ≤ t) {entry : Option Entry}
    {l : Kind} {p : Str} {o : Output} (h : EntrySpec entry p H) {it : Entry}
    (ht : it.m_Timestamp = t) (ho : it.output l = some o)
    (hother : it.output l.other = entry.bind (·.output l.other)) :
    Stamped it p ((t, .put l p o) :: H) := by
  refine ⟨⟨l, by simp [livePut, ht]⟩, ?_, ?_⟩
  · intro k s hs
    unfold livePut at hs
    split at hs
    · cases hs
      exact Int.le_of_eq ht.symm
    · obtain ⟨e, he, rfl⟩ := exists_of_lastPut (lastPut_of_livePut hs)
      exact ht ▸ hH e he
  · intro k
    unfold livePut
    by_cases hk : l = k
    · subst hk
      simp [ho]
    · have hk' : k = l.other := by
        cases k <;> cases l <;> first | rfl | exact absurd rfl hk
      rw [if_neg (fun hc => hk hc.1), hk', hother, h.output_isSome]

theorem nondecreasing_tail {e : Int × Call} {H : History} {now : Int}
    (h : Nondecreasing (e :: H) now) : Nondecreasing H e.1 := by
  obtain ⟨h1, -⟩ := h
  rw [List.map_cons, List.pairwise_cons] at h1
  exact ⟨h1.2, fun e he => h1.1 _ (List.mem_map_of_mem he)⟩

/-- The entry of a path after a history. -/
theorem entry_spec {H : History} {now : Int} (hH : Nondecreasing H now) (p : Str) :
    EntrySpec (after H p) p H := by
  induction H generalizing now with
  | nil => exact fun _ => rfl
  | cons e H ih =>
    have ih := ih (nondecreasing_tail hH)
    obtain ⟨t, call⟩ := e
    cases call with
    | get l q => exact ih
    | invalidate q =>
      by_cases hq : q = p
      · subst hq
        simp [after, Call.apply, livePut, EntrySpec]
      · simpa [after, Call.apply, livePut, hq, invalidate_of_ne (Ne.symm hq), EntrySpec,
          Stamped] using ih
    | put l q o =>
      by_cases hq : q = p
      · subst hq
        obtain ⟨it, hit, ht, ho, hother⟩ := put_self l (after H) q o t
        simp only [after, Call.apply, hit]
        exact stamped_put (nondecreasing_tail hH).2 ih ht ho hother
      · simpa [after, Call.apply, livePut, hq, put_of_ne (Ne.symm hq), EntrySpec, Stamped]
          using ih

/-- A value is read if and only if a live put gave it and one of the two live puts of the
path is less than 120 seconds old. -/
theorem get_ne_none_iff {H : History} {now : Int} (hH : Nondecreasing H now) (k : Kind)
    (p : Str) :
    (after H).get k p now ≠ none ↔
      (livePut k p H).isSome ∧
        ∃ l s, livePut l p H = some s ∧ now < s + iFileDataCacheSecondsValid := by
  have hspec := entry_spec hH p
  rw [Option.ne_none_iff_exists']
  constructor
  · rintro ⟨o, ho⟩
    obtain ⟨it, hit, hvalid, hout⟩ := get_eq_some.mp ho
    rw [hit] at hspec
    obtain ⟨⟨l, hl⟩, -, hsome⟩ := hspec
    exact ⟨by rw [← hsome k, hout]; rfl, l, _, hl, hvalid⟩
  · rintro ⟨hlive, l, s, hl, hs⟩
    cases hit : after H p with
    | none =>
      rw [hit] at hspec
      rw [hspec k] at hlive
      cases hlive
    | some it =>
      rw [hit] at hspec
      obtain ⟨-, hmax, hsome⟩ := hspec
      obtain ⟨o, ho⟩ := Option.isSome_iff_exists.mp ((hsome k).trans hlive)
      refine ⟨o, get_eq_some.mpr ⟨it, hit, ?_, ho⟩⟩
      have := hmax l s hl
      omega

/-- The value of kind `k` for `p` is past its time, but the entry was made young again by a
put of the other kind. -/
def Refreshed (k : Kind) (p : Str) (H : History) (now : Int) : Prop :=
  ∃ s r, livePut k p H = some s ∧ livePut k.other p H = some r ∧
    s + iFileDataCacheSecondsValid ≤ now ∧ now < r + iFileDataCacheSecondsValid

/-- A value that is read was put less than 120 seconds ago, except for the refreshed
ones. -/
theorem expiry_iff {H : History} {now : Int} (hH : Nondecreasing H now) (k : Kind) (p : Str) :
    ((after H).get k p now ≠ none →
        ∃ s, lastPut k p H = some s ∧ now < s + iFileDataCacheSecondsValid) ↔
      ¬ Refreshed k p H now := by
  rw [get_ne_none_iff hH]
  constructor
  · rintro h ⟨s, r, hs, hr, hold, hyoung⟩
    obtain ⟨s', hs', hlt⟩ := h ⟨by rw [hs]; rfl, k.other, r, hr, hyoung⟩
    rw [lastPut_of_livePut hs] at hs'
    cases hs'
    omega
  · rintro hnot ⟨hlive, l, r, hr, hyoung⟩
    obtain ⟨s, hs⟩ := Option.isSome_iff_exists.mp hlive
    refine ⟨s, lastPut_of_livePut hs, ?_⟩
    by_contra hold
    by_cases hl : l = k
    · subst hl
      rw [hs] at hr
      cases hr
      exact hold hyoung
    · have hl' : l = k.other := by
        cases k <;> cases l <;> first | rfl | exact absurd rfl hl
      exact hnot ⟨s, r, hs, hl' ▸ hr, by omega, hyoung⟩

/-- A stat output put at 0, refreshed by a readlink output at 100, then read at 200. -/
def refreshRun : History :=
  [(100, .put .readLink ['/', 'a'] [['/', 'a']]), (0, .put .stat ['/', 'a'] [['s']])]

theorem expiry_refreshRun :
    ((after [(0, .put .stat ['/', 'a'] [['s']])]).get .stat ['/', 'a'] 100 ≠ none →
        ∃ s, lastPut .stat ['/', 'a'] [(0, .put .stat ['/', 'a'] [['s']])] = some s ∧
          100 < s + iFileDataCacheSecondsValid) ↔
      ¬ Refreshed .stat ['/', 'a'] [(0, .put .stat ['/', 'a'] [['s']])] 100 :=
  expiry_iff (⟨by simp, by simp⟩ : Nondecreasing [(0, .put .stat ['/', 'a'] [['s']])] 100)
    .stat ['/', 'a']

/-- A stat output of age 200 is read. -/
theorem stale_read :
    Nondecreasing refreshRun 200 ∧
      ¬ ((after refreshRun).get .stat ['/', 'a'] 200 ≠ none →
        ∃ s, lastPut .stat ['/', 'a'] refreshRun = some s ∧
          200 < s + iFileDataCacheSecondsValid) := by
  refine ⟨⟨by simp [refreshRun], by simp [refreshRun]⟩, fun h => ?_⟩
  obtain ⟨s, hs, hlt⟩ := h (by decide +kernel)
  have h0 : s = 0 := by simpa [lastPut, refreshRun, eq_comm] using hs
  subst h0
  exact absurd hlt (by decide)

end AdbncFs.FileCache
