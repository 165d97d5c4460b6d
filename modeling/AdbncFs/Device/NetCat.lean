import Mathlib.Data.List.TakeWhile
import AdbncFs.Text.Str

/-!
# The netcat connection

`execCommandViaNetCat` writes a command and an `echo` of the marker `pcDone` to the netcat
process and reads lines until one contains the marker. What the device sends for a command
is the output of the command and then the marker line.

In a conversation of any length every call returns the lines of its own output exactly
when every output is `Framed`: it is empty or ends with a line feed, and the marker does
not occur in it (`replies_matched_iff`). An output that is not framed already spoils its
own call.
-/

namespace AdbncFs

open Text

/-- The end of command marker. -/
def pcDone : Str := "---eoc---".toList

/-- The local netcat process: the bytes written to it and the bytes that it has received
from the device and that nobody has read. -/
structure NetCat where
  sent : Str
  unread : Str

/-- What is written for a command. -/
def request (strCommand : Str) : Str :=
  strCommand ++ ['\n'] ++ "echo '".toList ++ pcDone ++ "'".toList ++ ['\n']

/-- The reading loop of `execCommandViaNetCat`: the queue of lines and the text after
them. At the end of the stream a last line without a line feed is dropped. -/
def readReply (stream : Str) : List Str × Str :=
  match _h : getline stream with
  | none => ([], [])
  | some (strTmpString, rest) =>
    if find strTmpString pcDone 0 ≠ none then ([], rest)
    else (strTmpString :: (readReply rest).1, (readReply rest).2)
termination_by stream.length
decreasing_by all_goals exact getline_length _h

/-- One call, when `reply` is what the device sends from the writing of the command on. -/
def execCommandViaNetCat (strCommand reply : Str) (pNetCat : NetCat) : List Str × NetCat :=
  let r := readReply (pNetCat.unread ++ reply)
  (r.1, { sent := pNetCat.sent ++ request strCommand, unread := r.2 })

/-- The bytes a live device sends for a command with output `o`. -/
def deviceReply (o : Str) : Str := o ++ (pcDone ++ ['\n'])

/-- The results of calls in a row; each has its command and the output of the command on
the device. -/
def conversation : NetCat → List (Str × Str) → List (List Str)
  | _, [] => []
  | pNetCat, (strCommand, o) :: calls =>
    let r := execCommandViaNetCat strCommand (deviceReply o) pNetCat
    r.1 :: conversation r.2 calls

/-- An output whose end the marker line shows. -/
def Framed (o : Str) : Prop := (o = [] ∨ o.getLast? = some '\n') ∧ ¬ pcDone <:+: o

instance (o : Str) : Decidable (Framed o) :=
  inferInstanceAs (Decidable ((o = [] ∨ o.getLast? = some '\n') ∧ ¬ pcDone <:+: o))

/-! ## One reply -/

theorem lineFeed_not_mem_pcDone : '\n' ∉ pcDone := by decide

theorem readReply_line {line : Str} (rest : Str) (hline : '\n' ∉ line) :
    readReply (line ++ '\n' :: rest) =
      if pcDone <:+: line then ([], rest)
      else (line :: (readReply rest).1, (readReply rest).2) := by
  rw [readReply]
  split
  · rename_i hn
    rw [getline_append hline] at hn
    cases hn
  · rename_i l r hp
    rw [getline_append hline] at hp
    cases hp
    simp only [find_zero_ne_none]

/-- The lines up to the first one with the marker; when it is the last one, nothing is
left unread. -/
theorem readReply_deviceReply {ls : List Str} {t : Str} (hls : ∀ l ∈ ls, '\n' ∉ l)
    (ht : '\n' ∉ t) :
    (readReply (deviceReply (unlines ls ++ t))).1 = ls.takeWhile (fun l => ¬ pcDone <:+: l) ∧
      ((∀ l ∈ ls, ¬ pcDone <:+: l) → (readReply (deviceReply (unlines ls ++ t))).2 = []) := by
  induction ls with
  | nil =>
    have hlast : deviceReply (unlines [] ++ t) = (t ++ pcDone) ++ '\n' :: [] := by
      simp [deviceReply, unlines]
    have hfree : '\n' ∉ t ++ pcDone := by
      rw [List.mem_append, not_or]
      exact ⟨ht, lineFeed_not_mem_pcDone⟩
    rw [hlast, readReply_line [] hfree, if_pos (List.suffix_append t pcDone).isInfix]
    exact ⟨rfl, fun _ => rfl⟩
  | cons l ls ih =>
    have hl := hls l List.mem_cons_self
    obtain ⟨ih1, ih2⟩ := ih fun m hm => hls m (List.mem_cons_of_mem _ hm)
    have hcons :
        deviceReply (unlines (l :: ls) ++ t) = l ++ '\n' :: deviceReply (unlines ls ++ t) := by
      simp [deviceReply, unlines]
    rw [hcons, readReply_line _ hl]
    by_cases hm : pcDone <:+: l
    · simp [hm]
    · simp only [hm, if_false, not_false_eq_true, decide_true, List.takeWhile_cons_of_pos, ih1,
        true_and]
      exact fun h => ih2 fun m hm' => h m (List.mem_cons_of_mem _ hm')

/-! ## Conversations -/

theorem takeWhile_eq_append_iff {p : Str → Bool} {ls es : List Str} :
    ls.takeWhile p = ls ++ es ↔ es = [] ∧ ∀ l ∈ ls, p l = true := by
  constructor
  · intro h
    have hlen := (List.takeWhile_prefix (l := ls) p).length_le
    rw [h, List.length_append] at hlen
    have hes : es = [] := List.length_eq_zero_iff.mp (by omega)
    rw [hes, List.append_nil, List.takeWhile_eq_self_iff] at h
    exact ⟨hes, h⟩
  · rintro ⟨rfl, h⟩
    rw [List.append_nil, List.takeWhile_eq_self_iff]
    exact h

theorem framed_unlines_iff (ls : List Str) {t : Str} (ht : '\n' ∉ t) :
    Framed (unlines ls ++ t) ↔ t = [] ∧ ∀ l ∈ ls, ¬ pcDone <:+: l := by
  rw [Framed, unlines_append_ended_iff ls ht,
    infix_unlines_iff lineFeed_not_mem_pcDone (by decide), not_or]
  constructor
  · rintro ⟨rfl, h, -⟩
    exact ⟨rfl, fun l hl hm => h ⟨l, hl, hm⟩⟩
  · rintro ⟨rfl, h⟩
    exact ⟨rfl, fun ⟨l, hl, hm⟩ => h l hl hm, fun hm => absurd (List.infix_nil.mp hm) (by decide)⟩

/-- A call that starts with nothing unread returns the lines of its output exactly when
the output is framed, and then leaves nothing unread. -/
theorem readReply_framed (o : Str) :
    ((readReply (deviceReply o)).1 = lines o ↔ Framed o) ∧
      (Framed o → (readReply (deviceReply o)).2 = []) := by
  obtain ⟨ls, t, rfl, hls, ht⟩ := exists_unlines o
  obtain ⟨h1, h2⟩ := readReply_deviceReply hls ht
  have hframed := framed_unlines_iff ls ht
  constructor
  · rw [h1, lines_unlines_append hls ht, takeWhile_eq_append_iff, hframed]
    simp
  · exact fun h => h2 (hframed.mp h).2

/-- Replies stay matched to commands exactly when every output is framed. -/
theorem replies_matched_iff (sent : Str) (calls : List (Str × Str)) :
    conversation ⟨sent, []⟩ calls = calls.map (fun c => lines c.2) ↔
      ∀ c ∈ calls, Framed c.2 := by
  induction calls generalizing sent with
  | nil => simp [conversation]
  | cons c calls ih =>
    obtain ⟨h1, h2⟩ := readReply_framed c.2
    simp only [conversation, execCommandViaNetCat, List.nil_append, List.map_cons,
      List.cons.injEq, List.forall_mem_cons, h1]
    constructor
    · rintro ⟨hc, h⟩
      rw [h2 hc] at h
      exact ⟨hc, (ih _).mp h⟩
    · rintro ⟨hc, h⟩
      rw [h2 hc]
      exact ⟨hc, (ih _).mpr h⟩

/-- A file named like the marker cuts the listing of its directory, and the rest of the
listing becomes the answer to the next command. -/
theorem reply_shifted :
    ¬ ∀ (sent : Str) (calls : List (Str × Str)),
      conversation ⟨sent, []⟩ calls = calls.map fun c => lines c.2 := by
  intro h
  have := h [] [("busybox ls -1a '/'".toList, "a\n---eoc---\nb\n".toList),
    ("busybox stat -t '/b'".toList, "/b 0 0\n".toList)]
  revert this
  decide +kernel

end AdbncFs
