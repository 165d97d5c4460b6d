import Mathlib.Data.List.Count
import Mathlib.Data.List.Nodup
import Mathlib.Data.List.Induction
import Mathlib.Logic.Function.Basic

/-!
# Descriptors given out and closed

A table says which thread a descriptor was given to. A history is what all threads do with
their descriptors, in the order in which the kernel sees it. The kernel gives out only
numbers that are free, but a close takes a number from whoever has it: nothing but the
conduct of the threads keeps one from closing what another holds.
-/

namespace Descriptors

open Function

variable {θ : Type}

inductive Act (θ : Type)
  /-- a free number is given to the thread -/
  | give (t : θ) (fd : Nat)
  /-- the thread closes a number -/
  | close (t : θ) (fd : Nat)
  deriving DecidableEq

def Act.thread : Act θ → θ
  | give t _ | close t _ => t

/-- The thread that each number was given to, when it is not free. -/
abbrev Table (θ : Type) := Nat → Option θ

def Act.apply (T : Table θ) : Act θ → Table θ
  | give t fd => update T fd (some t)
  | close _ fd => update T fd none

/-- The table after a history. -/
def after (T : Table θ) (H : List (Act θ)) : Table θ := H.foldl Act.apply T

theorem after_concat (T : Table θ) (H : List (Act θ)) (a : Act θ) :
    after T (H ++ [a]) = a.apply (after T H) := List.foldl_append

/-- Only free numbers are given out. -/
def Legal (T : Table θ) (H : List (Act θ)) : Prop :=
  ∀ pre t fd post, H = pre ++ .give t fd :: post → after T pre fd = none

/-- No other thread closes a number that `me` holds. -/
def Respected (me : θ) (T : Table θ) (H : List (Act θ)) : Prop :=
  ∀ pre t fd post, H = pre ++ .close t fd :: post → t ≠ me → after T pre fd ≠ some me

/-- What `me` closes is held by nobody else at that moment. -/
def ClosesOwn (me : θ) (T : Table θ) (H : List (Act θ)) : Prop :=
  ∀ pre fd post, H = pre ++ .close me fd :: post → ∀ t, after T pre fd = some t → t = me

/-- Each number that `me` was given is closed by it exactly once. -/
def ClosedOnce [DecidableEq θ] (me : θ) (H : List (Act θ)) : Prop :=
  ∀ fd, Act.give me fd ∈ H → H.count (.close me fd) = 1

variable {me : θ} {T : Table θ} {H K : List (Act θ)} {fd : Nat}

theorem Legal.of_append (h : Legal T (H ++ K)) : Legal T H := by
  intro pre t fd post hH
  exact h pre t fd (post ++ K) (by simp [hH])

theorem Respected.of_append (h : Respected me T (H ++ K)) : Respected me T H := by
  intro pre t fd post hH
  exact h pre t fd (post ++ K) (by simp [hH])

theorem legal_nil : Legal T [] := fun pre t fd post h => by simp at h

theorem legal_give {t : θ} (h : T fd = none) (hH : Legal (update T fd (some t)) H) :
    Legal T (.give t fd :: H) := by
  intro pre t' fd' post hsplit
  cases pre with
  | nil =>
    cases hsplit
    exact h
  | cons a pre =>
    cases hsplit
    exact hH pre t' fd' post rfl

theorem legal_close {t : θ} (hH : Legal (update T fd none) H) : Legal T (.close t fd :: H) := by
  intro pre t' fd' post hsplit
  cases pre with
  | nil => cases hsplit
  | cons a pre =>
    cases hsplit
    exact hH pre t' fd' post rfl

theorem respected_of_own (h : ∀ a ∈ H, ∀ t fd, a = .close t fd → t = me) : Respected me T H := by
  intro pre t fd post hH ht
  exact absurd (h _ (by simp [hH]) t fd rfl) ht

/-- What a thread was given and has not closed it holds. -/
theorem after_of_given (hlegal : Legal T H) (hresp : Respected me T H)
    (hgive : Act.give me fd ∈ H) (hclose : Act.close me fd ∉ H) : after T H fd = some me := by
  induction H using List.reverseRecOn with
  | nil => cases hgive
  | append_singleton H a ih =>
    have hclose' : Act.close me fd ∉ H := fun h => hclose (List.mem_append_left _ h)
    have ih := fun h => ih hlegal.of_append hresp.of_append h hclose'
    rw [after_concat]
    cases a with
    | give t fd' =>
      by_cases hfd : fd' = fd
      · subst hfd
        have hfree := hlegal H t fd' [] rfl
        rcases List.mem_append.mp hgive with h | h
        · cases hfree.symm.trans (ih h)
        · cases List.mem_singleton.mp h
          have hself : update (after T H) fd' (some me) fd' = some me := update_self fd' _ _
          exact hself
      · have hold : Act.give me fd ∈ H := by
          rcases List.mem_append.mp hgive with h | h
          · exact h
          · cases List.mem_singleton.mp h
            exact absurd rfl hfd
        exact (update_of_ne (Ne.symm hfd) (some t) _).trans (ih hold)
    | close t fd' =>
      have hold : Act.give me fd ∈ H := by
        rcases List.mem_append.mp hgive with h | h
        · exact h
        · cases List.mem_singleton.mp h
      by_cases hfd : fd' = fd
      · subst hfd
        have ht : t ≠ me := by
          rintro rfl
          exact hclose (by simp)
        exact absurd (ih hold) (hresp H t fd' [] rfl ht)
      · exact (update_of_ne (Ne.symm hfd) none _).trans (ih hold)

/-- So the first close of a number is never one of another thread's. -/
theorem closesOwn_iff (hlegal : Legal T H) (hresp : Respected me T H)
    (hgiven : ∀ pre fd post, H = pre ++ .close me fd :: post → Act.give me fd ∈ pre) :
    ClosesOwn me T H ↔ ∀ pre fd post, H = pre ++ .close me fd :: post →
      Act.close me fd ∈ pre → ∀ t, after T pre fd = some t → t = me := by
  constructor
  · exact fun h pre fd post hH _ => h pre fd post hH
  · intro h pre fd post hH t ht
    by_cases hclosed : Act.close me fd ∈ pre
    · exact h pre fd post hH hclosed t ht
    · subst hH
      have := after_of_given hlegal.of_append hresp.of_append
        (hgiven pre fd post rfl) hclosed
      exact Option.some.inj (ht.symm.trans this)

variable [DecidableEq θ]

/-- What `me` does, of a history. -/
def own (me : θ) (H : List (Act θ)) : List (Act θ) := H.filter fun a => a.thread = me

theorem own_append (H K : List (Act θ)) : own me (H ++ K) = own me H ++ own me K :=
  List.filter_append _ _

theorem own_cons {a : Act θ} (h : a.thread = me) : own me (a :: H) = a :: own me H :=
  List.filter_cons_of_pos (by simpa using h)

theorem own_cons_of_ne {a : Act θ} (h : a.thread ≠ me) : own me (a :: H) = own me H :=
  List.filter_cons_of_neg (by simpa using h)

theorem mem_own {a : Act θ} (h : a.thread = me) : a ∈ own me H ↔ a ∈ H := by
  simp [own, h]

theorem count_own {a : Act θ} (h : a.thread = me) : (own me H).count a = H.count a :=
  List.count_filter (decide_eq_true h)

/-- Numbers that are given to a thread that closes none in between are different. -/
theorem nodup_of_given (hlegal : Legal T H) (hresp : Respected me T H) {fds : List Nat}
    (hown : own me H = fds.map (.give me)) : fds.Nodup := by
  induction H using List.reverseRecOn generalizing fds with
  | nil =>
    rw [List.map_eq_nil_iff.mp hown.symm]
    exact List.nodup_nil
  | append_singleton H a ih =>
    rw [own_append] at hown
    by_cases ha : a.thread = me
    · rw [own_cons ha] at hown
      rcases List.eq_nil_or_concat fds with rfl | ⟨fds, fd, rfl⟩
      · exact List.nodup_nil
      · rw [List.concat_eq_append, List.map_append] at hown
        obtain ⟨hold, hlast⟩ := List.append_inj' hown rfl
        obtain rfl : a = .give me fd := List.singleton_inj.mp hlast
        have hnodup := ih hlegal.of_append hresp.of_append hold
        have hfree := hlegal H me fd [] rfl
        have hnew : fd ∉ fds := by
          intro hmem
          have hgive : Act.give me fd ∈ own me H := by
            rw [hold]
            exact List.mem_map_of_mem hmem
          have hclose : Act.close me fd ∉ H := by
            rw [← mem_own rfl]
            change Act.close me fd ∉ own me H
            rw [hold]
            simp
          have := after_of_given hlegal.of_append hresp.of_append ((mem_own rfl).mp hgive) hclose
          exact absurd (hfree.symm.trans this) (by simp)
        rw [List.concat_eq_append]
        refine List.nodup_append.mpr ⟨hnodup, List.nodup_singleton fd, ?_⟩
        rintro fd' hmem x hx rfl
        exact hnew (List.mem_singleton.mp hx ▸ hmem)
    · rw [own_cons_of_ne ha] at hown
      exact ih hlegal.of_append hresp.of_append ((List.append_nil _).symm.trans hown)

/-- Where a thread closes a number, of a thread that is given some numbers and then closes
some. -/
theorem own_before_close {fds closes : List Nat}
    (hown : own me H = fds.map (.give me) ++ closes.map (.close me)) {pre post : List (Act θ)}
    (hH : H = pre ++ .close me fd :: post) :
    ∃ before behind, closes = before ++ fd :: behind ∧
      own me pre = fds.map (.give me) ++ before.map (.close me) := by
  have hsplit : own me H = own me pre ++ .close me fd :: own me post := by
    have hme : (Act.close me fd).thread = me := rfl
    rw [hH, own_append, own_cons hme]
  rcases List.append_eq_append_iff.mp (hsplit.symm.trans hown) with ⟨gives, hgives, hrest⟩ |
      ⟨done, hpre, hrest⟩
  · cases gives with
    | nil =>
      rw [List.append_nil] at hgives
      obtain ⟨fd', behind, rfl, hfd, -⟩ := List.map_eq_cons_iff.mp hrest.symm
      cases hfd
      exact ⟨[], behind, rfl, by rw [hgives]; exact (List.append_nil _).symm⟩
    | cons a gives =>
      have hmem : Act.close me fd ∈ fds.map (.give me) := by
        rw [hgives, (List.cons.inj hrest).1]
        simp
      simp at hmem
  · obtain ⟨before, rest, rfl, rfl, hbehind⟩ := List.map_eq_append_iff.mp hrest
    obtain ⟨fd', behind, rfl, hfd, -⟩ := List.map_eq_cons_iff.mp hbehind
    cases hfd
    exact ⟨before, behind, rfl, hpre⟩

theorem given_before_close {fds closes : List Nat}
    (hown : own me H = fds.map (.give me) ++ closes.map (.close me))
    (hsub : ∀ fd ∈ closes, fd ∈ fds) {pre post : List (Act θ)}
    (hH : H = pre ++ .close me fd :: post) : Act.give me fd ∈ pre := by
  obtain ⟨before, behind, rfl, hpre⟩ := own_before_close hown hH
  refine (mem_own rfl).mp ?_
  change Act.give me fd ∈ own me pre
  rw [hpre]
  exact List.mem_append_left _ (List.mem_map_of_mem (hsub fd (by simp)))

theorem given_iff {fds closes : List Nat}
    (hown : own me H = fds.map (.give me) ++ closes.map (.close me)) :
    Act.give me fd ∈ H ↔ fd ∈ fds := by
  have hme : (Act.give me fd).thread = me := rfl
  rw [← mem_own hme]
  change Act.give me fd ∈ own me H ↔ _
  rw [hown]
  simp

theorem count_close {fds closes : List Nat}
    (hown : own me H = fds.map (.give me) ++ closes.map (.close me)) :
    H.count (.close me fd) = closes.count fd := by
  have hme : (Act.close me fd).thread = me := rfl
  have hinj : Function.Injective (Act.close me) := fun a b h => (Act.close.inj h).2
  have hgives : (fds.map (Act.give me)).count (.close me fd) = 0 :=
    List.count_eq_zero.mpr (by simp)
  rw [← count_own hme]
  change (own me H).count _ = _
  rw [hown, List.count_append, hgives, Nat.zero_add, List.count_map_of_injective _ _ hinj]

/-- The numbers given to such a thread are different. -/
theorem nodup_of_own (hlegal : Legal T H) (hresp : Respected me T H) {fds closes : List Nat}
    (hown : own me H = fds.map (.give me) ++ closes.map (.close me)) : fds.Nodup := by
  obtain ⟨H₁, H₂, rfl, h₁, -⟩ := List.filter_eq_append_iff.mp hown
  exact nodup_of_given hlegal.of_append hresp.of_append h₁

/-- If it closes none twice, it closes no number of another thread. -/
theorem closesOwn_of_nodup (hlegal : Legal T H) (hresp : Respected me T H)
    {fds closes : List Nat} (hown : own me H = fds.map (.give me) ++ closes.map (.close me))
    (hnodup : closes.Nodup) (hsub : ∀ fd ∈ closes, fd ∈ fds) : ClosesOwn me T H := by
  apply (closesOwn_iff hlegal hresp fun pre fd post => given_before_close hown hsub).mpr
  intro pre fd post hH hclosed
  obtain ⟨before, behind, rfl, hpre⟩ := own_before_close hown hH
  have hclosed : Act.close me fd ∈ own me pre := (mem_own rfl).mpr hclosed
  rw [hpre] at hclosed
  have hbefore : fd ∈ before := by simpa using hclosed
  have hdisjoint := (List.nodup_append.mp hnodup).2.2 fd hbefore fd (by simp)
  exact absurd rfl hdisjoint

end Descriptors
