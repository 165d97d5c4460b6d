import Mathlib.Data.Set.Basic
import Mathlib.Logic.Relation
import AdbncFs.Device.NetCat
import AdbncFs.Interaction.Runs

/-!
# Threads that share the netcat connection

`execCommandViaNetCat` step by step, called by any number of threads: a thread locks
`ncCmdMutex`, writes the command, writes the `echo` of the marker, reads line after line until
one has the marker, and unlocks. The shell of the device reads its input byte by byte and
writes whenever it likes, so that a command may be running while the next bytes are written.
The stream stays open.

Whatever the order of these steps, the answers are those of the calls made one after another
in the order in which they got the mutex (`answers_sequential`), and the threads never get
stuck (`conversations_go_on`).
-/

namespace AdbncFs

open Text Interaction Function

/-! ## Bytes in and bytes out -/

section

variable {δ : Type} (feed : Char → δ → Str × δ)

/-- What the device writes while it reads these bytes. -/
def emitted (bs : Str) (d : δ) : Str := (outcomes feed bs d).flatMap Prod.snd

variable {feed}

theorem emitted_append (as bs : Str) (d : δ) :
    emitted feed (as ++ bs) d = emitted feed as d ++ emitted feed bs (final feed as d) := by
  rw [emitted, outcomes_append, List.flatMap_append]
  rfl

theorem emitted_cons (b : Char) (bs : Str) (d : δ) :
    emitted feed (b :: bs) d = (feed b d).1 ++ emitted feed bs (feed b d).2 := by
  rw [emitted, outcomes, List.flatMap_cons, emitted]

end

/-- The bytes of the command line. -/
def commandText (strCommand : Str) : Str := strCommand ++ ['\n']

/-- The bytes of the `echo` of the marker. -/
def markerText : Str := "echo '".toList ++ pcDone ++ "'".toList ++ ['\n']

theorem request_eq (strCommand : Str) :
    request strCommand = commandText strCommand ++ markerText := by
  have hassoc : ∀ a b c d e : Str, a ++ b ++ c ++ d ++ e = a ++ (b ++ c ++ d ++ e) := by simp
  unfold request commandText markerText
  exact hassoc _ _ _ _ _

/-- For the request of one of these commands a device that waits for a command writes the output
of the command and then the marker line, and waits again. What others do to the device is part
of its state. -/
def AnswersRequests {δ : Type} (feed : Char → δ → Str × δ) (output : Str → δ → Str × δ)
    (commands : Set Str) (ready : Set δ) : Prop :=
  ∀ c ∈ commands, ∀ d ∈ ready, emitted feed (request c) d = deviceReply (output c d).1 ∧
    final feed (request c) d = (output c d).2 ∧ (output c d).2 ∈ ready

/-! ## The steps -/

/-- Where a thread is in `execCommandViaNetCat`. -/
inductive Conversing
  | idle
  | locking (strCommand : Str)
  | commanding (strCommand : Str)
  | marking (strCommand : Str)
  | reading (strCommand : Str) (output : List Str)
  | unlocking (output : List Str)

/-- The thread holds `ncCmdMutex`. -/
def Conversing.Busy : Conversing → Prop
  | idle | locking _ => False
  | _ => True

structure Conversations (ι δ : Type) where
  thread : ι → Conversing
  /-- the thread that holds `ncCmdMutex` -/
  owner : Option ι
  device : δ
  /-- what was written to netcat and the device has not read -/
  input : Str
  /-- what the device wrote and nobody has read -/
  unread : Str
  /-- the calls that have left the reading loop, with their answers -/
  log : List (Str × List Str)

namespace Conversations

variable {ι δ : Type} [DecidableEq ι]

/-- Nothing has been written or read. -/
def start (d : δ) : Conversations ι δ := ⟨fun _ => .idle, none, d, [], [], []⟩

/-- A thread calls `execCommandViaNetCat`. -/
inductive Call (commands : Set Str) : Conversations ι δ → Conversations ι δ → Prop
  | call {s : Conversations ι δ} {i : ι} {c : Str} : s.thread i = .idle → c ∈ commands →
      Call commands s { s with thread := update s.thread i (.locking c) }

inductive Step (feed : Char → δ → Str × δ) : Conversations ι δ → Conversations ι δ → Prop
  | lock {s : Conversations ι δ} {i : ι} {c : Str} : s.thread i = .locking c → s.owner = none →
      Step feed s { s with thread := update s.thread i (.commanding c), owner := some i }
  | command {s : Conversations ι δ} {i : ι} {c : Str} : s.thread i = .commanding c →
      Step feed s { s with
        thread := update s.thread i (.marking c), input := s.input ++ commandText c }
  | mark {s : Conversations ι δ} {i : ι} {c : Str} : s.thread i = .marking c →
      Step feed s { s with
        thread := update s.thread i (.reading c []), input := s.input ++ markerText }
  | line {s : Conversations ι δ} {i : ι} {c : Str} {output : List Str} {strTmpString rest : Str} :
      s.thread i = .reading c output → getline s.unread = some (strTmpString, rest) →
      find strTmpString pcDone 0 = none →
      Step feed s { s with
        thread := update s.thread i (.reading c (output ++ [strTmpString])), unread := rest }
  | marker {s : Conversations ι δ} {i : ι} {c : Str} {output : List Str}
      {strTmpString rest : Str} :
      s.thread i = .reading c output → getline s.unread = some (strTmpString, rest) →
      find strTmpString pcDone 0 ≠ none →
      Step feed s { s with
        thread := update s.thread i (.unlocking output), unread := rest
        log := s.log ++ [(c, output)] }
  | unlock {s : Conversations ι δ} {i : ι} {output : List Str} : s.thread i = .unlocking output →
      Step feed s { s with thread := update s.thread i .idle, owner := none }
  | device {s : Conversations ι δ} {b : Char} {bs : Str} : s.input = b :: bs →
      Step feed s { s with
        device := (feed b s.device).2, input := bs, unread := s.unread ++ (feed b s.device).1 }

/-- The threads and the device come from one state to the other, in any order of their
steps. -/
def Reaches (feed : Char → δ → Str × δ) (commands : Set Str) :
    Conversations ι δ → Conversations ι δ → Prop :=
  Relation.ReflTransGen fun s s' => Call commands s s' ∨ Step feed s s'

end Conversations

/-! ## Streams with a marker line in them -/

/-- The lines before the first line with the marker, and what comes after that line. -/
def Delivers (stream : Str) (ls : List Str) (rest : Str) : Prop :=
  (∀ l ∈ ls, '\n' ∉ l ∧ ¬ pcDone <:+: l) ∧
    ∃ line, '\n' ∉ line ∧ pcDone <:+: line ∧ stream = unlines ls ++ (line ++ '\n' :: rest)

namespace Delivers

theorem cons {stream rest l : Str} {ls : List Str} (h : Delivers stream ls rest)
    (hl : '\n' ∉ l) (hm : ¬ pcDone <:+: l) : Delivers (l ++ '\n' :: stream) (l :: ls) rest := by
  obtain ⟨hls, line, hline, hmarker, rfl⟩ := h
  refine ⟨fun m hm' => ?_, line, hline, hmarker, by simp [unlines]⟩
  rcases List.mem_cons.mp hm' with rfl | hm'
  · exact ⟨hl, hm⟩
  · exact hls m hm'

theorem readReply_eq {stream rest : Str} {ls : List Str} (h : Delivers stream ls rest) :
    readReply stream = (ls, rest) := by
  obtain ⟨hls, line, hline, hmarker, rfl⟩ := h
  induction ls with
  | nil => rw [unlines, List.nil_append, readReply_line _ hline, if_pos hmarker]
  | cons l ls ih =>
    obtain ⟨hl, hm⟩ := hls l List.mem_cons_self
    rw [unlines, List.append_assoc, List.cons_append, readReply_line _ hl, if_neg hm,
      ih fun m hm' => hls m (List.mem_cons_of_mem l hm')]

/-- The first line, when it has no marker, is the first of the lines. -/
theorem of_line {stream rest l : Str} {ls : List Str}
    (h : Delivers (l ++ '\n' :: stream) ls rest) (hl : '\n' ∉ l) (hm : ¬ pcDone <:+: l) :
    ∃ ms, ls = l :: ms ∧ Delivers stream ms rest := by
  obtain ⟨hls, line, hline, hmarker, heq⟩ := h
  have hfirst : getline (l ++ '\n' :: stream) = some (l, stream) := getline_append hl
  cases ls with
  | nil =>
    rw [heq, unlines, List.nil_append, getline_append hline, Option.some.injEq,
      Prod.mk.injEq] at hfirst
    exact absurd (hfirst.1 ▸ hmarker) hm
  | cons m ms =>
    rw [heq, unlines, List.append_assoc, List.cons_append,
      getline_append (hls m List.mem_cons_self).1, Option.some.injEq, Prod.mk.injEq] at hfirst
    obtain ⟨rfl, rfl⟩ := hfirst
    exact ⟨ms, rfl, fun l hl => hls l (List.mem_cons_of_mem m hl), line, hline, hmarker, rfl⟩

/-- A line with the marker ends the reply. -/
theorem of_marker {stream rest l : Str} {ls : List Str}
    (h : Delivers (l ++ '\n' :: stream) ls rest) (hl : '\n' ∉ l) (hm : pcDone <:+: l) :
    ls = [] ∧ rest = stream := by
  have hread := h.readReply_eq
  rw [readReply_line _ hl, if_pos hm, Prod.mk.injEq] at hread
  exact ⟨hread.1.symm, hread.2.symm⟩

theorem exists_of_unlines {t rest : Str} {ls : List Str} (hls : ∀ l ∈ ls, '\n' ∉ l)
    (ht : '\n' ∉ t) (hm : pcDone <:+: t) :
    ∃ ms rest', Delivers (unlines ls ++ (t ++ '\n' :: rest)) ms rest' := by
  induction ls with
  | nil => exact ⟨[], rest, fun _ hl => absurd hl List.not_mem_nil, t, ht, hm, rfl⟩
  | cons l ls ih =>
    have hl := hls l List.mem_cons_self
    rw [unlines, List.append_assoc, List.cons_append]
    by_cases hmarker : pcDone <:+: l
    · exact ⟨[], _, fun _ hl => absurd hl List.not_mem_nil, l, hl, hmarker, rfl⟩
    · obtain ⟨ms, rest', h⟩ := ih fun m hm' => hls m (List.mem_cons_of_mem l hm')
      exact ⟨l :: ms, rest', h.cons hl hmarker⟩

/-- Whatever was left unread before, behind a reply of the device a marker line has come. -/
theorem exists_deviceReply (unread o : Str) :
    ∃ ls rest, Delivers (unread ++ deviceReply o) ls rest := by
  obtain ⟨ls, t, h, hls, ht⟩ := exists_unlines (unread ++ o)
  have hstream : unread ++ deviceReply o = unlines ls ++ ((t ++ pcDone) ++ '\n' :: []) := by
    rw [deviceReply, ← List.append_assoc, h]
    simp
  rw [hstream]
  refine exists_of_unlines hls ?_ (List.suffix_append t pcDone).isInfix
  rw [List.mem_append, not_or]
  exact ⟨ht, lineFeed_not_mem_pcDone⟩

end Delivers

/-! ## The invariant -/

/-- One call after another, each with the output of its command. -/
def execInTurn (call : Str × Str) (pNetCat : NetCat) : List Str × NetCat :=
  execCommandViaNetCat call.1 (deviceReply call.2) pNetCat

theorem conversation_eq (calls : List (Str × Str)) (pNetCat : NetCat) :
    conversation pNetCat calls = (outcomes execInTurn calls pNetCat).map Prod.snd := by
  induction calls generalizing pNetCat with
  | nil => rfl
  | cons call calls ih => exact congrArg (_ :: ·) (ih _)

namespace Conversations

variable {ι δ : Type} {feed : Char → δ → Str × δ} {output : Str → δ → Str × δ}
  {commands : Set Str} {ready : Set δ}

/-- The thread with the mutex. -/
def holder (s : Conversations ι δ) : Conversing := (s.owner.map s.thread).getD .idle

/-- What is still to be read when the device has read these bytes too. -/
def stillToRead (feed : Char → δ → Str × δ) (s : Conversations ι δ) (more : Str) : Str :=
  s.unread ++ emitted feed (s.input ++ more) s.device

def deviceAfter (feed : Char → δ → Str × δ) (s : Conversations ι δ) (more : Str) : δ :=
  final feed (s.input ++ more) s.device

/-- Between calls that left `unread` and `d` behind. -/
structure AtRest (feed : Char → δ → Str × δ) (unread : Str) (d : δ) (s : Conversations ι δ) :
    Prop where
  stream : s.stillToRead feed [] = unread
  device : s.deviceAfter feed [] = d

/-- How far the call of the thread with the mutex has come. -/
def Keeps (feed : Char → δ → Str × δ) (output : Str → δ → Str × δ) (commands : Set Str)
    (unread : Str) (d : δ) (s : Conversations ι δ) : Conversing → Prop
  | .commanding c => c ∈ commands ∧ s.AtRest feed unread d
  | .marking c => c ∈ commands ∧
      s.stillToRead feed markerText = unread ++ deviceReply (output c d).1 ∧
      s.deviceAfter feed markerText = (output c d).2
  | .reading c lines => c ∈ commands ∧ s.deviceAfter feed [] = (output c d).2 ∧
      ∃ ls rest, Delivers (s.stillToRead feed []) ls rest ∧
        readReply (unread ++ deviceReply (output c d).1) = (lines ++ ls, rest)
  | _ => s.AtRest feed unread d

/-- The commands in the order in which the mutex was got, each with what it writes on a device
that had the state `d` at first. -/
def calls (output : Str → δ → Str × δ) (d : δ) (s : Conversations ι δ) : List (Str × Str) :=
  outcomes output (s.log.map Prod.fst) d

structure Inv (feed : Char → δ → Str × δ) (output : Str → δ → Str × δ) (commands : Set Str)
    (ready : Set δ) (d : δ) (s : Conversations ι δ) : Prop where
  answers : s.log.map Prod.snd = conversation ⟨[], []⟩ (s.calls output d)
  busy_iff : ∀ i, (s.thread i).Busy ↔ s.owner = some i
  asked : ∀ i c, s.thread i = .locking c → c ∈ commands
  returned : ∀ i lines, s.thread i = .unlocking lines → s.log.getLast?.map Prod.snd = some lines
  waits : final output (s.log.map Prod.fst) d ∈ ready
  keeps : Keeps feed output commands (final execInTurn (s.calls output d) ⟨[], []⟩).unread
    (final output (s.log.map Prod.fst) d) s s.holder

theorem inv_start {d : δ} (hd : d ∈ ready) :
    Inv feed output commands ready d (start d : Conversations ι δ) where
  answers := rfl
  busy_iff i := iff_of_false id (fun h => by cases h)
  asked i c h := by cases h
  returned i lines h := by cases h
  waits := hd
  keeps := ⟨rfl, rfl⟩

namespace Inv

variable {d : δ} {s : Conversations ι δ}

theorem owner_of_busy (h : Inv feed output commands ready d s) {i : ι} (hi : (s.thread i).Busy) :
    s.owner = some i := (h.busy_iff i).mp hi

theorem holder_of_busy (h : Inv feed output commands ready d s) {i : ι} (hi : (s.thread i).Busy) :
    s.holder = s.thread i := by
  rw [holder, h.owner_of_busy hi]
  rfl

theorem holder_of_free (hfree : s.owner = none) : s.holder = .idle := by
  rw [holder, hfree]
  rfl

end Inv

theorem keeps_congr {unread : Str} {d : δ} {s s' : Conversations ι δ} {t : Conversing}
    (hstream : ∀ more, s'.stillToRead feed more = s.stillToRead feed more)
    (hdevice : ∀ more, s'.deviceAfter feed more = s.deviceAfter feed more)
    (h : Keeps feed output commands unread d s t) :
    Keeps feed output commands unread d s' t := by
  have hrest : s.AtRest feed unread d → s'.AtRest feed unread d :=
    fun hr => ⟨(hstream []).trans hr.stream, (hdevice []).trans hr.device⟩
  cases t with
  | commanding c => exact ⟨h.1, hrest h.2⟩
  | marking c => exact ⟨h.1, (hstream _).trans h.2.1, (hdevice _).trans h.2.2⟩
  | reading c lines =>
    obtain ⟨hc, hd, ls, rest, hdelivers, hread⟩ := h
    exact ⟨hc, (hdevice []).trans hd, ls, rest, hstream [] ▸ hdelivers, hread⟩
  | idle => exact hrest h
  | locking c => exact hrest h
  | unlocking output => exact hrest h

theorem Inv.device {d : δ} {s : Conversations ι δ} (h : Inv feed output commands ready d s)
    {b : Char} {bs : Str} (hb : s.input = b :: bs) :
    Inv feed output commands ready d { s with
      device := (feed b s.device).2, input := bs, unread := s.unread ++ (feed b s.device).1 } := by
  refine ⟨h.answers, h.busy_iff, h.asked, h.returned, h.waits,
    keeps_congr (s := s) (fun more => ?_) (fun more => ?_) h.keeps⟩
  · rw [stillToRead, stillToRead, hb, List.cons_append, emitted_cons, List.append_assoc]
  · rw [deviceAfter, deviceAfter, hb]
    rfl

namespace Inv

variable [DecidableEq ι] {d : δ} {s s' : Conversations ι δ}

/-- The thread with the mutex goes on and keeps it. -/
theorem advance (h : Inv feed output commands ready d s) {i : ι} (hi : (s.thread i).Busy)
    {t : Conversing} (ht : t.Busy) (hthread : s'.thread = update s.thread i t)
    (howner : s'.owner = s.owner)
    (hanswers : s'.log.map Prod.snd = conversation ⟨[], []⟩ (s'.calls output d))
    (hreturned : ∀ lines, t = .unlocking lines → s'.log.getLast?.map Prod.snd = some lines)
    (hwaits : final output (s'.log.map Prod.fst) d ∈ ready)
    (hkeeps : Keeps feed output commands (final execInTurn (s'.calls output d) ⟨[], []⟩).unread
      (final output (s'.log.map Prod.fst) d) s' t) : Inv feed output commands ready d s' where
  answers := hanswers
  busy_iff j := by
    rw [hthread, howner, h.owner_of_busy hi]
    by_cases hj : j = i
    · subst hj
      rw [update_self]
      exact iff_of_true ht rfl
    · rw [update_of_ne hj, h.busy_iff j, h.owner_of_busy hi]
  asked j c hj := by
    rw [hthread] at hj
    by_cases hji : j = i
    · subst hji
      rw [update_self] at hj
      subst hj
      exact ht.elim
    · rw [update_of_ne hji] at hj
      exact h.asked j c hj
  returned j lines hj := by
    rw [hthread] at hj
    by_cases hji : j = i
    · subst hji
      rw [update_self] at hj
      exact hreturned lines hj
    · rw [update_of_ne hji] at hj
      have hbusy : (s.thread j).Busy := hj ▸ trivial
      exact absurd (Option.some.inj ((h.owner_of_busy hbusy).symm.trans (h.owner_of_busy hi))) hji
  waits := hwaits
  keeps := by
    have hholder : s'.holder = t := by
      rw [holder, howner, h.owner_of_busy hi, hthread]
      exact update_self ..
    rw [hholder]
    exact hkeeps

theorem call (h : Inv feed output commands ready d s) (hcall : Call commands s s') :
    Inv feed output commands ready d s' := by
  cases hcall with
  | @call i c hidle hc =>
    have hbusy : ∀ j, (update s.thread i (Conversing.locking c) j).Busy ↔ s.owner = some j := by
      intro j
      rw [← h.busy_iff j]
      by_cases hj : j = i
      · subst hj
        rw [update_self, hidle]
        exact Iff.rfl
      · rw [update_of_ne hj]
    refine ⟨h.answers, hbusy, fun j c' hj => ?_, fun j lines hj => ?_, h.waits, ?_⟩
    · by_cases hji : j = i
      · subst hji
        simp only [update_self, Conversing.locking.injEq] at hj
        exact hj ▸ hc
      · simp only [update_of_ne hji] at hj
        exact h.asked j c' hj
    · by_cases hji : j = i
      · subst hji
        simp only [update_self] at hj
        cases hj
      · simp only [update_of_ne hji] at hj
        exact h.returned j lines hj
    · have hholder : holder { s with thread := update s.thread i (.locking c) } = s.holder := by
        unfold holder
        cases ho : s.owner with
        | none => rfl
        | some j =>
          have hji : j ≠ i := by
            rintro rfl
            have hj := (h.busy_iff j).mpr ho
            rw [hidle] at hj
            exact hj
          exact update_of_ne hji _ _
      rw [hholder]
      exact keeps_congr (s := s) (fun _ => rfl) (fun _ => rfl) h.keeps

theorem lock (h : Inv feed output commands ready d s) {i : ι} {c : Str}
    (hi : s.thread i = .locking c)
    (hfree : s.owner = none) :
    Inv feed output commands ready d
      { s with thread := update s.thread i (.commanding c), owner := some i } := by
  have hkeeps := h.keeps
  rw [holder_of_free hfree] at hkeeps
  refine ⟨h.answers, fun j => ?_, fun j c' hj => ?_, fun j lines hj => ?_, h.waits, ?_⟩
  · by_cases hj : j = i
    · subst hj
      simp only [update_self]
      exact iff_of_true trivial trivial
    · simp only [update_of_ne hj, Option.some.injEq]
      rw [h.busy_iff j, hfree]
      exact iff_of_false (fun h => by cases h) (fun h => hj h.symm)
  · by_cases hji : j = i
    · subst hji
      simp only [update_self] at hj
      cases hj
    · simp only [update_of_ne hji] at hj
      exact h.asked j c' hj
  · by_cases hji : j = i
    · subst hji
      simp only [update_self] at hj
      cases hj
    · simp only [update_of_ne hji] at hj
      exact h.returned j lines hj
  · have hholder : holder { s with
        thread := update s.thread i (.commanding c), owner := some i } = .commanding c :=
      update_self ..
    rw [hholder]
    exact ⟨h.asked i c hi, hkeeps.stream, hkeeps.device⟩

theorem command (hdevice : AnswersRequests feed output commands ready)
    (h : Inv feed output commands ready d s) {i : ι} {c : Str} (hi : s.thread i = .commanding c) :
    Inv feed output commands ready d { s with
      thread := update s.thread i (.marking c), input := s.input ++ commandText c } := by
  have hbusy : (s.thread i).Busy := hi ▸ trivial
  have hkeeps := h.keeps
  rw [h.holder_of_busy hbusy, hi] at hkeeps
  obtain ⟨hc, hstream, hafter⟩ := hkeeps
  rw [stillToRead, List.append_nil] at hstream
  rw [deviceAfter, List.append_nil] at hafter
  obtain ⟨hreply, hdone, -⟩ := hdevice c hc _ h.waits
  refine h.advance (t := .marking c) hbusy trivial rfl rfl h.answers
    (fun _ ht => Conversing.noConfusion ht) h.waits ⟨hc, ?_, ?_⟩
  · simp only [stillToRead, List.append_assoc]
    rw [← request_eq, emitted_append, hafter, hreply, ← List.append_assoc, hstream]
    rfl
  · simp only [deviceAfter, List.append_assoc]
    rw [← request_eq, final_append, hafter, hdone]

theorem mark (h : Inv feed output commands ready d s) {i : ι} {c : Str}
    (hi : s.thread i = .marking c) :
    Inv feed output commands ready d { s with
      thread := update s.thread i (.reading c []), input := s.input ++ markerText } := by
  have hbusy : (s.thread i).Busy := hi ▸ trivial
  have hkeeps := h.keeps
  rw [h.holder_of_busy hbusy, hi] at hkeeps
  obtain ⟨hc, hstream, hafter⟩ := hkeeps
  obtain ⟨ls, rest, hdelivers⟩ := Delivers.exists_deviceReply
    (final execInTurn (s.calls output d) ⟨[], []⟩).unread
    (output c (final output (s.log.map Prod.fst) d)).1
  refine h.advance (t := .reading c []) hbusy trivial rfl rfl h.answers
    (fun _ ht => Conversing.noConfusion ht) h.waits
    ⟨hc, ?_, ls, rest, ?_, hdelivers.readReply_eq⟩
  · rw [deviceAfter, List.append_nil]
    exact hafter
  · rw [← hstream] at hdelivers
    rw [stillToRead, List.append_nil]
    exact hdelivers

theorem line (h : Inv feed output commands ready d s) {i : ι} {c : Str} {lines : List Str}
    {strTmpString rest : Str} (hi : s.thread i = .reading c lines)
    (hline : getline s.unread = some (strTmpString, rest))
    (hmarker : find strTmpString pcDone 0 = none) :
    Inv feed output commands ready d { s with
      thread := update s.thread i (.reading c (lines ++ [strTmpString])), unread := rest } := by
  have hbusy : (s.thread i).Busy := hi ▸ trivial
  have hkeeps := h.keeps
  rw [h.holder_of_busy hbusy, hi] at hkeeps
  obtain ⟨hc, hafter, ls, rest', hdelivers, hread⟩ := hkeeps
  obtain ⟨hunread, hfree⟩ := getline_eq_some.mp hline
  rw [stillToRead, hunread, List.append_assoc, List.cons_append] at hdelivers
  obtain ⟨ms, rfl, htail⟩ := hdelivers.of_line hfree fun hm => find_zero_ne_none.mpr hm hmarker
  refine h.advance (t := .reading c (lines ++ [strTmpString])) hbusy trivial rfl rfl h.answers
    (fun _ ht => Conversing.noConfusion ht) h.waits ⟨hc, hafter, ms, rest', htail, ?_⟩
  rw [List.append_assoc]
  exact hread

theorem marker (hdevice : AnswersRequests feed output commands ready)
    (h : Inv feed output commands ready d s) {i : ι} {c : Str} {lines : List Str}
    {strTmpString rest : Str} (hi : s.thread i = .reading c lines)
    (hline : getline s.unread = some (strTmpString, rest))
    (hmarker : find strTmpString pcDone 0 ≠ none) :
    Inv feed output commands ready d { s with
      thread := update s.thread i (.unlocking lines), unread := rest
      log := s.log ++ [(c, lines)] } := by
  have hbusy : (s.thread i).Busy := hi ▸ trivial
  have hkeeps := h.keeps
  rw [h.holder_of_busy hbusy, hi] at hkeeps
  obtain ⟨hc, hafter, ls, rest', hdelivers, hread⟩ := hkeeps
  obtain ⟨hunread, hfree⟩ := getline_eq_some.mp hline
  rw [stillToRead, hunread, List.append_assoc, List.cons_append] at hdelivers
  obtain ⟨rfl, rfl⟩ := hdelivers.of_marker hfree (find_zero_ne_none.mp hmarker)
  rw [List.append_nil] at hread
  -- the call is one more of the calls in a row
  have hcalls : calls output d { s with
      thread := update s.thread i (.unlocking lines), unread := rest
      log := s.log ++ [(c, lines)] } =
        s.calls output d ++ [(c, (output c (final output (s.log.map Prod.fst) d)).1)] := by
    rw [calls, List.map_append, outcomes_append]
    rfl
  refine h.advance (t := .unlocking lines) hbusy trivial rfl rfl ?_ (fun lines' ht => ?_) ?_
    ⟨?_, ?_⟩
  · rw [hcalls, conversation_eq, outcomes_append, List.map_append, List.map_append,
      ← conversation_eq, ← h.answers]
    exact congrArg (fun r : List Str × Str => _ ++ [r.1]) hread.symm
  · rw [List.getLast?_concat]
    exact congrArg some (Conversing.unlocking.inj ht)
  · simp only [List.map_append]
    rw [final_append]
    exact (hdevice c hc _ h.waits).2.2
  · rw [hcalls, final_append]
    exact congrArg Prod.snd hread.symm
  · simp only [List.map_append]
    rw [final_append]
    exact hafter

theorem unlock (h : Inv feed output commands ready d s) {i : ι} {lines : List Str}
    (hi : s.thread i = .unlocking lines) :
    Inv feed output commands ready d
      { s with thread := update s.thread i .idle, owner := none } := by
  have hbusy : (s.thread i).Busy := hi ▸ trivial
  have hkeeps := h.keeps
  rw [h.holder_of_busy hbusy, hi] at hkeeps
  have hrest : s.AtRest feed (final execInTurn (s.calls output d) ⟨[], []⟩).unread
    (final output (s.log.map Prod.fst) d) := hkeeps
  have hidle : ∀ j, ¬ (update s.thread i Conversing.idle j).Busy := by
    intro j hj
    by_cases hji : j = i
    · subst hji
      rw [update_self] at hj
      exact hj
    · rw [update_of_ne hji] at hj
      exact hji (Option.some.inj ((h.owner_of_busy hj).symm.trans (h.owner_of_busy hbusy)))
  refine ⟨h.answers, fun j => iff_of_false (hidle j) (fun h => by cases h), fun j c hj => ?_,
    fun j lines hj => ?_, h.waits, hrest.stream, hrest.device⟩
  · by_cases hji : j = i
    · subst hji
      simp only [update_self] at hj
      cases hj
    · simp only [update_of_ne hji] at hj
      exact h.asked j c hj
  · have hj : update s.thread i .idle j = .unlocking lines := hj
    exact absurd (hj ▸ trivial : (update s.thread i .idle j).Busy) (hidle j)

/-- Every step keeps the invariant. -/
theorem step (hdevice : AnswersRequests feed output commands ready)
    (h : Inv feed output commands ready d s) (hstep : Step feed s s') :
    Inv feed output commands ready d s' := by
  cases hstep with
  | lock hi hfree => exact h.lock hi hfree
  | command hi => exact h.command hdevice hi
  | mark hi => exact h.mark hi
  | line hi hline hmarker => exact h.line hi hline hmarker
  | marker hi hline hmarker => exact h.marker hdevice hi hline hmarker
  | unlock hi => exact h.unlock hi
  | device hb => exact h.device hb

theorem reaches (hdevice : AnswersRequests feed output commands ready)
    (h : Inv feed output commands ready d s) (hreach : Reaches feed commands s s') :
    Inv feed output commands ready d s' := by
  induction hreach with
  | refl => exact h
  | tail _ hstep ih =>
    exact hstep.elim (fun hcall => ih.call hcall) fun hstep => ih.step hdevice hstep

end Inv

/-! ## The answers -/

/-- Outputs that are framed are answered with their own lines. -/
theorem conversation_framed {calls : List (Str × Str)} (h : ∀ call ∈ calls, Framed call.2)
    {pNetCat : NetCat} (hunread : pNetCat.unread = []) :
    conversation pNetCat calls = calls.map fun call => lines call.2 := by
  induction calls generalizing pNetCat with
  | nil => rfl
  | cons call calls ih =>
    obtain ⟨hread, hrest⟩ := readReply_framed call.2
    have hcall := h call List.mem_cons_self
    rw [conversation, execCommandViaNetCat, hunread, List.nil_append, hread.mpr hcall,
      ih (fun c hc => h c (List.mem_cons_of_mem call hc)) (hrest hcall), List.map_cons]

variable [DecidableEq ι] {d : δ} {s : Conversations ι δ}

/-- In every interleaving the answers are those of the calls made one after another, in the
order of the log. A thread returns the latest of them, and the lines of its own output where
all outputs are framed. -/
theorem answers_sequential (hdevice : AnswersRequests feed output commands ready)
    (hd : d ∈ ready) (hreach : Reaches feed commands (start d) s) :
    s.log.map Prod.snd = conversation ⟨[], []⟩ (s.calls output d) ∧
      (∀ i lines, s.thread i = .unlocking lines →
        s.log.getLast?.map Prod.snd = some lines) ∧
      ((∀ call ∈ s.calls output d, Framed call.2) →
        s.log.map Prod.snd = (s.calls output d).map fun call => lines call.2) := by
  have h := (inv_start hd).reaches hdevice hreach
  exact ⟨h.answers, h.returned, fun hframed => h.answers.trans (conversation_framed hframed rfl)⟩

/-- As long as some thread is in `execCommandViaNetCat`, a thread or the device can take a
step. -/
theorem conversations_go_on (hdevice : AnswersRequests feed output commands ready)
    (hd : d ∈ ready) (hreach : Reaches feed commands (start d) s) {i : ι}
    (hi : s.thread i ≠ .idle) : ∃ s', Step feed s s' := by
  have h := (inv_start hd).reaches hdevice hreach
  cases howner : s.owner with
  | none =>
    have hfree : ¬ (s.thread i).Busy := fun hbusy => by
      rw [h.busy_iff, howner] at hbusy
      cases hbusy
    cases ht : s.thread i with
    | idle => exact absurd ht hi
    | locking c => exact ⟨_, .lock ht howner⟩
    | _ =>
      rw [ht] at hfree
      exact absurd trivial hfree
  | some j =>
    have hbusy : (s.thread j).Busy := (h.busy_iff j).mpr howner
    have hkeeps := h.keeps
    rw [h.holder_of_busy hbusy] at hkeeps
    cases ht : s.thread j with
    | idle =>
      rw [ht] at hbusy
      exact hbusy.elim
    | locking c =>
      rw [ht] at hbusy
      exact hbusy.elim
    | commanding c => exact ⟨_, .command ht⟩
    | marking c => exact ⟨_, .mark ht⟩
    | unlocking lines => exact ⟨_, .unlock ht⟩
    | reading c lines =>
      rw [ht] at hkeeps
      obtain ⟨-, -, ls, rest, ⟨-, line, -, -, hstream⟩, -⟩ := hkeeps
      cases hline : getline s.unread with
      | some r =>
        by_cases hmarker : find r.1 pcDone 0 = none
        · exact ⟨_, .line ht hline hmarker⟩
        · exact ⟨_, .marker ht hline hmarker⟩
      | none =>
        -- the marker line is still to come from the device
        cases hinput : s.input with
        | cons b bs => exact ⟨_, .device hinput⟩
        | nil =>
          refine absurd ?_ (getline_eq_none.mp hline)
          have hunread : s.stillToRead feed [] = s.unread := by
            rw [stillToRead, hinput, List.nil_append]
            exact List.append_nil s.unread
          rw [← hunread, hstream]
          simp

/-- The device reads all that was written to it. -/
theorem reaches_deviceAfter (s : Conversations ι δ) :
    Reaches feed commands s { s with
      device := final feed s.input s.device, input := []
      unread := s.unread ++ emitted feed s.input s.device } := by
  obtain ⟨thread, owner, device, input, unread, log⟩ := s
  induction input generalizing device unread with
  | nil =>
    have hnil : unread ++ emitted feed [] device = unread := List.append_nil unread
    rw [hnil]
    exact .refl
  | cons b bs ih =>
    have hfirst : Step feed (⟨thread, owner, device, b :: bs, unread, log⟩ : Conversations ι δ)
        ⟨thread, owner, (feed b device).2, bs, unread ++ (feed b device).1, log⟩ := .device rfl
    have hrest := ih (feed b device).2 (unread ++ (feed b device).1)
    rw [List.append_assoc] at hrest
    rw [emitted_cons]
    exact .head (Or.inr hfirst) hrest

end Conversations

/-! ## Two threads list directories -/

namespace LineShell

/-- A shell that has read the first bytes of a line. It knows `echo` and otherwise writes the
argument of the command. -/
def feed (c : Char) (line : Str) : Str × Str :=
  if c = '\n' then
    (if line = "echo '---eoc---'".toList then pcDone ++ ['\n'] else line.drop 3 ++ ['\n'], [])
  else ([], line ++ [c])

def output (c _ : Str) : Str × Str := (c.drop 3 ++ ['\n'], [])

/-- What a thread lists. -/
def listing : Bool → Str
  | false => "ls a".toList
  | true => "ls b".toList

def answer : Bool → Str
  | false => ['a']
  | true => ['b']

theorem answersRequests : AnswersRequests feed output (Set.range listing) {[]} := by
  rintro c ⟨i, rfl⟩ d rfl
  cases i <;> exact ⟨by decide +kernel, by decide +kernel, rfl⟩

open Conversations

/-- A thread that waits for the mutex has its answer, when nothing is left of the calls before. -/
theorem reaches_answer {s : Conversations Bool Str} (i : Bool)
    (hreach : Reaches feed (Set.range listing) (start []) s)
    (hthread : s.thread i = .locking (listing i)) (howner : s.owner = none)
    (hdevice : s.device = []) (hinput : s.input = []) (hunread : s.unread = []) :
    ∃ s', Reaches feed (Set.range listing) (start []) s' ∧
      s'.log = s.log ++ [(listing i, [answer i])] ∧ s'.thread i = .unlocking [answer i] ∧
      (∀ j ≠ i, s'.thread j = s.thread j) ∧ s'.device = [] ∧ s'.input = [] ∧ s'.unread = [] := by
  obtain ⟨thread, owner, device, input, unread, log⟩ := s
  subst howner hdevice hinput hunread
  have h₁ := hreach.tail (Or.inr (.lock hthread rfl))
  have h₂ := h₁.tail (Or.inr (.command (i := i) (update_self ..)))
  have h₃ := h₂.tail (Or.inr (.mark (i := i) (update_self ..)))
  have h₄ := h₃.trans (reaches_deviceAfter _)
  have hline : getline (answer i ++ '\n' :: (pcDone ++ ['\n'])) =
      some (answer i, pcDone ++ ['\n']) := by cases i <;> decide +kernel
  have hmarker : getline (pcDone ++ ['\n']) = some (pcDone, []) := by decide +kernel
  have hemitted : emitted feed ([] ++ commandText (listing i) ++ markerText) [] =
      answer i ++ '\n' :: (pcDone ++ ['\n']) := by cases i <;> decide +kernel
  have hfinal : final feed ([] ++ commandText (listing i) ++ markerText) [] = [] := by
    cases i <;> decide +kernel
  have hnotDone : find (answer i) pcDone 0 = none := by cases i <;> decide +kernel
  dsimp only at h₄
  rw [hemitted, hfinal] at h₄
  have h₅ := h₄.tail (Or.inr (.line (i := i) (update_self ..) hline hnotDone))
  have h₆ := h₅.tail (Or.inr (.marker (i := i) (update_self ..) hmarker (by decide +kernel)))
  refine ⟨_, h₆, rfl, update_self .., fun j hj => ?_, rfl, rfl, rfl⟩
  dsimp only
  repeat rw [update_of_ne hj]

/-- One thread has its answer, the other one waits for the mutex. -/
theorem reaches_first : ∃ s : Conversations Bool Str,
    Reaches feed (Set.range listing) (start []) s ∧ s.log = [(listing false, [answer false])] ∧
      s.thread false = .unlocking [answer false] ∧ s.thread true = .locking (listing true) ∧
      s.device = [] ∧ s.input = [] ∧ s.unread = [] := by
  have h₁ : Reaches feed (Set.range listing) (start [] : Conversations Bool Str) _ :=
    .single (Or.inl (.call (i := false) rfl ⟨false, rfl⟩))
  have h₂ := h₁.tail (Or.inl (.call (i := true) rfl ⟨true, rfl⟩))
  obtain ⟨s, h₃, hlog, hfalse, hrest, hleft⟩ := reaches_answer false h₂ rfl rfl rfl rfl rfl
  exact ⟨s, h₃, hlog, hfalse, hrest true (by decide), hleft⟩

/-- Both threads have their answers. -/
theorem reaches_both : ∃ s : Conversations Bool Str,
    Reaches feed (Set.range listing) (start []) s ∧
      s.log = [(listing false, [answer false]), (listing true, [answer true])] := by
  obtain ⟨s, h₁, hlog, hfalse, htrue, hdevice, hinput, hunread⟩ := reaches_first
  have h₂ := h₁.tail (Or.inr (.unlock hfalse))
  have hwaits : (update s.thread false .idle) true = .locking (listing true) :=
    (update_of_ne (by decide) _ _).trans htrue
  obtain ⟨t, h₃, hlog', -⟩ := reaches_answer true h₂ hwaits rfl hdevice hinput hunread
  refine ⟨t, h₃, ?_⟩
  rw [hlog', hlog]
  rfl

end LineShell

theorem answers_sequential_listed : ∃ s : Conversations Bool Str,
    s.log = [("ls a".toList, [['a']]), ("ls b".toList, [['b']])] ∧
      s.log.map Prod.snd = conversation ⟨[], []⟩ (s.calls LineShell.output []) := by
  obtain ⟨s, hreach, hlog⟩ := LineShell.reaches_both
  exact ⟨s, hlog, (Conversations.answers_sequential LineShell.answersRequests rfl hreach).1⟩

theorem conversations_go_on_contended : ∃ s s' : Conversations Bool Str,
    s.thread true = .locking "ls b".toList ∧ Conversations.Step LineShell.feed s s' := by
  obtain ⟨s, hreach, -, -, htrue, -⟩ := LineShell.reaches_first
  have hidle : s.thread true ≠ .idle := by
    rw [htrue]
    exact fun h => Conversing.noConfusion h
  obtain ⟨s', hstep⟩ :=
    Conversations.conversations_go_on LineShell.answersRequests rfl hreach hidle
  exact ⟨s, s', htrue, hstep⟩

end AdbncFs
