import AdbncFs.System.StatReplies

/-!
# A netcat stream that ends

The device writes bytes for a command and the marker line behind them; they come through a
stream that ends after some number of bytes. `execCommandViaNetCat` leaves its reading loop at
the end of the stream as it does at the marker, so that what has come till then is the answer.

`RawEnv.wired` is the outside of the program with such a stream in front of the device. When the
stream ends within a reply, the answer has all the lines of the output if and only if the stream
ends behind the output, and the output is framed (`answer_eq_lines_iff`).
-/

namespace AdbncFs

open Text Interaction

/-- What lies outside the program, with the bytes that the commands write on the device. -/
structure RawEnv (δ : Type) where
  time : δ → Int × δ
  output : Command → δ → Str × δ
  spawn : List Str → Bool → δ → Option (Str × Int) × δ
  syscall : (call : Syscall) → δ → call.Res × δ

/-- The connection to the device. Its stream ends after `left` more bytes. -/
structure Wire (δ : Type) where
  device : δ
  pNetCat : NetCat
  left : Nat

variable {δ : Type} (raw : RawEnv δ)

/-- A command goes through the connection. -/
def RawEnv.exec (c : Command) (s : Wire δ) : Output × Wire δ :=
  let o := raw.output c s.device
  let r := execCommandViaNetCat c.line ((deviceReply o.1).take s.left) s.pNetCat
  (r.1, ⟨o.2, r.2, s.left - (deviceReply o.1).length⟩)

/-- The outside, with the connection in front of the device. -/
def RawEnv.wired : Env (Wire δ) where
  time s := ((raw.time s.device).1, { s with device := (raw.time s.device).2 })
  shell := raw.exec
  spawn argv fUseStdErr s :=
    ((raw.spawn argv fUseStdErr s.device).1,
      { s with device := (raw.spawn argv fUseStdErr s.device).2 })
  syscall call s :=
    ((raw.syscall call s.device).1, { s with device := (raw.syscall call s.device).2 })

namespace Wire

variable (c : Command) (s : Wire δ)

/-- The bytes that the command writes. -/
def written : Str := (raw.output c s.device).1

/-- What can be read for the command. -/
def received : Str := s.pNetCat.unread ++ (deviceReply (s.written raw c)).take s.left

/-- The stream ends within the reply to the command. -/
def CutOff : Prop := s.left < (deviceReply (s.written raw c)).length

/-- Nothing is unread of other replies, and the stream does not end within the output, the end of
which can be seen. -/
def Whole : Prop :=
  s.pNetCat.unread = [] ∧ (s.written raw c).length ≤ s.left ∧ Framed (s.written raw c)

instance : Decidable (s.CutOff raw c) := inferInstanceAs (Decidable (_ < _))

instance : Decidable (s.Whole raw c) := inferInstanceAs (Decidable (_ ∧ _ ∧ _))

/-- The stream ends within the first line, or the first line has the marker. -/
def NoLine : Prop :=
  ∀ line rest, getline (s.received raw c) = some (line, rest) → pcDone <:+: line

end Wire

/-! ## What is read of a stream that ends -/

/-- Without the marker in it, the stream is read to its end. -/
theorem readReply_unlines {ls : List Str} {t : Str} (hls : ∀ l ∈ ls, '\n' ∉ l) (ht : '\n' ∉ t) :
    (readReply (unlines ls ++ t)).1 = ls.takeWhile fun l => ¬ pcDone <:+: l := by
  induction ls with
  | nil =>
    rw [unlines, List.nil_append, readReply]
    split
    · rfl
    · rename_i hp
      rw [getline_eq_none.mpr ht] at hp
      cases hp
  | cons l ls ih =>
    rw [unlines, List.append_assoc, List.cons_append, readReply_line _ (hls l List.mem_cons_self)]
    by_cases hm : pcDone <:+: l
    · simp [hm]
    · simp [hm, ih fun m hm' => hls m (List.mem_cons_of_mem l hm')]

/-- There are no more lines read than line feeds. -/
theorem length_readReply_le (stream : Str) :
    (readReply stream).1.length ≤ stream.count '\n' := by
  obtain ⟨ls, t, rfl, hls, ht⟩ := exists_unlines stream
  rw [readReply_unlines hls ht, count_unlines_append hls ht]
  exact (List.takeWhile_prefix _).length_le

section

variable (c : Command) (s : Wire δ)

/-- Where the stream ends within the reply, the last line feed does not come. -/
theorem take_reply {o : Str} {n : Nat} (h : n < (deviceReply o).length) :
    (deviceReply o).take n = o.take n ++ pcDone.take (n - o.length) := by
  have hlen : n ≤ (o ++ pcDone).length := by
    rw [deviceReply, ← List.append_assoc, List.length_append, List.length_singleton] at h
    omega
  rw [deviceReply, ← List.append_assoc, List.take_append_of_le_length hlen, List.take_append]

theorem lineFeed_not_mem_take (n : Nat) : '\n' ∉ pcDone.take n :=
  fun h => lineFeed_not_mem_pcDone (List.mem_of_mem_take h)

theorem exec_fst : (raw.exec c s).1 = (readReply (s.received raw c)).1 := rfl

variable {raw c s}

/-- A stream that ends behind a framed output gives all its lines. -/
theorem Wire.Whole.answer (h : s.Whole raw c) : (raw.exec c s).1 = lines (s.written raw c) := by
  obtain ⟨hunread, hlen, hframed⟩ := h
  rw [exec_fst, Wire.received, hunread, List.nil_append]
  by_cases hcut : s.CutOff raw c
  · obtain ⟨ls, t, ho, hls, ht⟩ := exists_unlines (s.written raw c)
    rw [ho] at hframed
    obtain ⟨rfl, hmarker⟩ := (framed_unlines_iff _ ht).mp hframed
    rw [take_reply hcut, List.take_of_length_le hlen, ho, List.append_nil,
      readReply_unlines hls (lineFeed_not_mem_take _), ← List.append_nil (unlines ls),
      lines_unlines_append hls ht, if_pos rfl, List.append_nil, List.takeWhile_eq_self_iff]
    simpa using hmarker
  · rw [List.take_of_length_le (Nat.le_of_not_lt hcut)]
    exact (readReply_framed _).1.mpr hframed

/-- Behind the last line feed that was received there is none. -/
theorem le_of_count_take {o : Str} {n : Nat} (hended : o = [] ∨ o.getLast? = some '\n')
    (hcount : o.count '\n' ≤ (o.take n).count '\n') : o.length ≤ n := by
  by_contra hlen
  have hdrop : o.drop n ≠ [] := fun h => hlen (List.drop_eq_nil_iff.mp h)
  have hsplit := List.take_append_drop n o
  have hlast : '\n' ∈ o.drop n := by
    rcases hended with rfl | hended
    · exact absurd (List.drop_nil) hdrop
    · rw [← hsplit, List.getLast?_append_of_ne_nil _ hdrop] at hended
      exact List.mem_of_getLast? hended
  have hpos := List.count_pos_iff.mpr hlast
  have hsum : o.count '\n' = (o.take n).count '\n' + (o.drop n).count '\n' := by
    rw [← List.count_append, hsplit]
  omega

/-- A stream that ends within the reply gives all lines of the output exactly when it ends
behind the output, and the output is framed. -/
theorem answer_eq_lines_iff (hunread : s.pNetCat.unread = []) (hcut : s.CutOff raw c) :
    (raw.exec c s).1 = lines (s.written raw c) ↔ s.Whole raw c := by
  refine ⟨fun h => ?_, fun h => h.answer⟩
  obtain ⟨ls, t, ho, hls, ht⟩ := exists_unlines (s.written raw c)
  have hlines := lines_unlines_append hls ht
  have hcount := count_unlines_append hls ht
  rw [exec_fst, Wire.received, hunread, List.nil_append, take_reply hcut] at h
  have hle := length_readReply_le
    ((s.written raw c).take s.left ++ pcDone.take (s.left - (s.written raw c).length))
  rw [h, List.count_append, List.count_eq_zero.mpr (lineFeed_not_mem_take _), Nat.add_zero] at hle
  have htake := (List.take_sublist s.left (s.written raw c)).count_le '\n'
  rw [ho] at h hle htake
  rw [hlines] at h hle
  -- a last line that is not ended is one line more than there are line feeds
  have hnil : t = [] := by
    by_contra hne
    rw [if_neg hne, List.length_append, List.length_singleton] at hle
    omega
  rw [if_pos hnil, List.append_nil] at h hle
  have hlen : (unlines ls ++ t).length ≤ s.left :=
    le_of_count_take ((unlines_append_ended_iff _ ht).mpr hnil) (by omega)
  refine ⟨hunread, by rwa [ho], ?_⟩
  rw [ho, framed_unlines_iff _ ht]
  rw [List.take_of_length_le hlen, hnil, List.append_nil,
    readReply_unlines hls (lineFeed_not_mem_take _), List.takeWhile_eq_self_iff] at h
  exact ⟨hnil, by simpa using h⟩

/-- Nothing is answered where no line is received. -/
theorem Wire.NoLine.answer (h : s.NoLine raw c) : (raw.exec c s).1 = [] := by
  rw [exec_fst, readReply]
  split
  · rfl
  · rename_i line rest hline
    rw [if_pos (find_zero_ne_none.mpr (h line rest hline))]

end

/-! ## What the stat command writes -/

/-- A device whose stat command writes the record of each path that it has, where the path
survives its quotes. -/
structure BusyBox (raw : RawEnv δ) where
  record : δ → Str → Option StatRecord
  path : ∀ {d p r}, record d p = some r → p.head? = some '/' ∧ '\x00' ∉ p
  stat_output : ∀ {d p r}, record d p = some r → '\'' ∉ p →
    (raw.output (.stat p) d).1 = p ++ ' ' :: (r.text ++ ['\n'])

/-- The device has the path. -/
def BusyBox.Has {raw : RawEnv δ} (v : BusyBox raw) (d : δ) (p : Str) : Prop := v.record d p ≠ none

/-- All that the stat command writes for a path that is there is an answer with which `doStat`
succeeds. -/
theorem BusyBox.whole_succeeds {raw : RawEnv δ} (v : BusyBox raw) {p : Str} {s : Wire δ}
    (hhas : v.Has s.device p) (hquote : '\'' ∉ p) (hwhole : s.Whole raw (.stat p)) :
    (raw.exec (.stat p) s).1 ≠ [] ∧
      ∀ fTokens, (statResult fTokens (raw.exec (.stat p) s).1).1 = 0 := by
  obtain ⟨r, hr⟩ := Option.ne_none_iff_exists'.mp hhas
  obtain ⟨habs, hnul⟩ := v.path hr
  have hwritten : s.written raw (.stat p) = p ++ ' ' :: (r.text ++ ['\n']) :=
    v.stat_output hr hquote
  have hmarker : ¬ pcDone <:+: p := by
    intro h
    obtain ⟨-, -, -, hnone⟩ := hwhole
    rw [hwritten] at hnone
    exact hnone (List.infix_append_of_infix_left h)
  have hanswer : (raw.exec (.stat p) s).1 = r.output ⟨p, habs, hnul, hmarker⟩ := by
    rw [hwhole.answer, hwritten, StatRecord.output_eq_lines]
    rfl
  obtain ⟨first, hresult⟩ := r.statResult_output ⟨p, habs, hnul, hmarker⟩
  rw [hanswer]
  have hzero := congrArg Prod.fst hresult
  have hne := statResult_ne_nil hzero
  refine ⟨hne, fun fTokens => ?_⟩
  cases fTokens with
  | true => exact hzero
  | false =>
    rw [statResult, if_neg hne]
    rfl

end AdbncFs
