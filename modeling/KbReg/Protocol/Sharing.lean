import KbReg.Firmware.Bounds
import KbReg.Protocol.Losses

/-! Several clients and a user at one keyboard. -/

namespace KbReg.Protocol

open KbReg.Firmware KbReg.Host KbReg.Pieces

variable {ι : Type}

inductive Event (ι : Type)
  | report (client : ι) (report : Bytes)
  | key (event : KeyEvent)
  deriving DecidableEq

def message (report : Bytes) : UInt8 := report.tail.headD 0

section Definitions

variable (fw : Build) (program : ι → Bytes × Bytes)

def meet (kb : Keyboard) : Event ι → Keyboard
  | .report _ report => (rawHidReceive fw kb report.tail).1
  | .key event => (processRecordUser fw kb event).1

def meetAll (kb : Keyboard) (events : List (Event ι)) : Keyboard := events.foldl (meet fw) kb

def Answered (kb : Keyboard) : List (Event ι) → Prop
  | [] => True
  | e :: es =>
    (match e with
      | .report _ report => (rawHidReceive fw kb report.tail).2 = some .ok
      | .key _ => True) ∧ Answered (meet fw kb e) es

def keycodeFor (i : ι) : UInt16 := keycodeOf fw ((program i).1.headD 0)

def StaysSelected (kb : Keyboard) : List (Event ι) → Prop
  | [] => True
  | e :: es =>
    (match e with
      | .report i report => message report = msgFinish → kb.current fw = keycodeFor fw program i
      | .key _ => True) ∧ StaysSelected (meet fw kb e) es

def Isolated (kb kb' : Keyboard) : Prop :=
  (∀ i, ∃ j, keycodeFor fw program j = keycodeFor fw program i ∧
    kb'.stored (keycodeFor fw program i) = some ((program j).2 ++ [0])) ∧
  ∀ c, (∀ i, c ≠ keycodeFor fw program i) → kb'.stored c = kb.stored c

def commit (texts : UInt16 → Option Bytes) : Event ι → UInt16 → Option Bytes
  | .report i report =>
    if message report = msgFinish then
      Function.update texts (keycodeFor fw program i) (some ((program i).2 ++ [0]))
    else texts
  | .key _ => texts

end Definitions

variable {fw : Build} {program : ι → Bytes × Bytes} {kb : Keyboard}

@[simp] lemma message_frame (id : UInt8) (payload : Bytes) : message (frame id payload) = id := rfl

lemma commits_other {c : UInt16} (hc : ∀ i, c ≠ keycodeFor fw program i) (es : List (Event ι))
    (texts : UInt16 → Option Bytes) : es.foldl (commit fw program) texts c = texts c := by
  induction es generalizing texts with
  | nil => rfl
  | cons e es ih =>
    rw [List.foldl_cons, ih]
    cases e with
    | key event => rfl
    | report j report =>
      simp only [commit]
      split_ifs
      · rw [Function.update_of_ne (hc j)]
      · rfl

lemma commits_own {i : ι} (es : List (Event ι)) (texts : UInt16 → Option Bytes)
    (h : (∃ report, Event.report i report ∈ es ∧ message report = msgFinish) ∨
      ∃ j, keycodeFor fw program j = keycodeFor fw program i ∧
        texts (keycodeFor fw program i) = some ((program j).2 ++ [0])) :
    ∃ j, keycodeFor fw program j = keycodeFor fw program i ∧
      es.foldl (commit fw program) texts (keycodeFor fw program i) = some ((program j).2 ++ [0]) := by
  induction es generalizing texts with
  | nil =>
    rcases h with ⟨report, hm, _⟩ | h
    · cases hm
    · exact h
  | cons e es ih =>
    rw [List.foldl_cons]
    apply ih
    rcases h with ⟨report, hm, hf⟩ | ⟨j, hj, htext⟩
    · rcases List.mem_cons.mp hm with rfl | hm
      · refine Or.inr ⟨i, rfl, ?_⟩
        simp [commit, hf]
      · exact Or.inl ⟨report, hm, hf⟩
    · right
      cases e with
      | key event => exact ⟨j, hj, htext⟩
      | report k report =>
        simp only [commit]
        split_ifs
        · by_cases hk : keycodeFor fw program k = keycodeFor fw program i
          · exact ⟨k, hk, by rw [← hk, Function.update_self]⟩
          · exact ⟨j, hj, by rw [Function.update_of_ne (Ne.symm hk), htext]⟩
        · exact ⟨j, hj, htext⟩

lemma finish_commits {i : ι} {report : Bytes} (hf : message report = msgFinish)
    (hok : (rawHidReceive fw kb report.tail).2 = some .ok) (hholds : Holds fw kb (program i).2)
    (hfits : Fits fw (program i).2) (hsel : kb.current fw = keycodeFor fw program i) :
    (rawHidReceive fw kb report.tail).1.stored = commit fw program kb.stored (.report i report) := by
  obtain ⟨payload, hp⟩ : ∃ payload, report.tail = msgFinish :: payload := by
    simp only [message] at hf
    cases hr : report.tail with
    | nil =>
      rw [hr] at hf
      exact absurd hf (by decide)
    | cons x xs =>
      rw [hr] at hf
      exact ⟨xs, by simpa using hf⟩
  rw [hp, receive_finish] at hok ⊢
  have hroom : Room fw kb := by
    rw [finish_response] at hok
    by_contra hn
    simp [hn] at hok
  funext c
  rw [finish_stored, copied_of_holds hholds hfits.2]
  simp only [hroom, true_and, commit, hf, if_true, hsel]
  by_cases hc : c = keycodeFor fw program i
  · simp [hc]
  · simp [hc]

lemma receive_keeps_text {left report : Bytes} (h : Holds fw kb left)
    (hm : message report ≠ msgSet ∧ message report ≠ msgAppend) :
    Holds fw (rawHidReceive fw kb report.tail).1 left := by
  simp only [message] at hm
  simp only [rawHidReceive, hm, if_false]
  split_ifs
  · exact ⟨h.offset, h.fits, h.cells⟩
  · exact finish_holds h
  · exact h

lemma key_stored (kb : Keyboard) (e : KeyEvent) : (processRecordUser fw kb e).1.stored = kb.stored := by
  simp only [processRecordUser]
  split_ifs
  · rfl
  · rfl
  · rfl
  · split
    · rfl
    · rfl
  · rfl

section Phases

variable [DecidableEq ι]

def own (i : ι) : Event ι → Option Bytes
  | .report j report => if j = i then some report else none
  | .key _ => none

def Interleaves (program : ι → Bytes × Bytes) (events : List (Event ι)) : Prop :=
  ∀ i, events.filterMap (own i) = pairReports (program i)

def clean (i : ι) : List (Event ι) → Bool
  | [] => true
  | .report j report :: es =>
    if j = i then message report = msgFinish || clean i es
    else message report ≠ msgSet && message report ≠ msgAppend && clean i es
  | .key _ :: es => clean i es

def unmixed : List (Event ι) → Bool
  | [] => true
  | .report i report :: es => (message report ≠ msgSet || clean i es) && unmixed es
  | .key _ :: es => unmixed es

/-- How far client `i` has got before the events `es`. Between S and F the part of its text that it has
sent is in the buffer. -/
inductive Progress (fw : Build) (program : ι → Bytes × Bytes) (kb : Keyboard) (i : ι)
    (es : List (Event ι)) : Prop
  | before (h : es.filterMap (own i) = pairReports (program i))
  | selected (h : es.filterMap (own i) = storeReports (program i).2)
  | sending (left : Bytes) (ps : List Bytes)
      (h : es.filterMap (own i) = ps.map (frame msgAppend) ++ [frame msgFinish []])
      (holds : Holds fw kb left) (rest : left ++ ps.flatten = (program i).2)
      (clean : clean i es = true)
  | done (h : es.filterMap (own i) = [])

lemma Progress.other {i : ι} {e : Event ι} {es : List (Event ι)} (h : Progress fw program kb i (e :: es))
    (he : own i e = none) : Progress fw program (meet fw kb e) i es := by
  have hown : (e :: es).filterMap (own i) = es.filterMap (own i) := List.filterMap_cons_none he
  cases h with
  | before h => exact .before (hown ▸ h)
  | selected h => exact .selected (hown ▸ h)
  | done h => exact .done (hown ▸ h)
  | sending left ps h holds rest hclean =>
    cases e with
    | key event => exact .sending left ps (hown ▸ h) (key_holds holds event) rest hclean
    | report j report =>
      have hj : j ≠ i := by
        rintro rfl
        simp [own] at he
      simp only [clean, hj, if_false, Bool.and_eq_true, decide_eq_true_eq] at hclean
      exact .sending left ps (hown ▸ h) (receive_keeps_text holds hclean.1) rest hclean.2

lemma Progress.own {i : ι} {report : Bytes} {es : List (Event ι)}
    (h : Progress fw program kb i (.report i report :: es)) (hfits : Fits fw (program i).2)
    (hmixed : unmixed (.report i report :: es) = true) :
    Progress fw program (meet fw kb (.report i report)) i es ∧
      (message report = msgFinish → Holds fw kb (program i).2) := by
  have hown : (Event.report i report :: es).filterMap (Protocol.own i) =
      report :: es.filterMap (Protocol.own i) := List.filterMap_cons_some (by simp [Protocol.own])
  cases h with
  | before h =>
    rw [hown] at h
    obtain ⟨rfl, hrest⟩ := List.cons.inj h
    exact ⟨.selected hrest, fun hf => absurd hf key_ne_finish⟩
  | selected h =>
    rw [hown] at h
    obtain ⟨rfl, hrest⟩ := List.cons.inj h
    have hclean : clean i es = true := by
      simp only [unmixed, message_frame, ne_eq, not_true_eq_false, decide_false, Bool.false_or,
        Bool.and_eq_true] at hmixed
      exact hmixed.1
    have htake : 0 ∉ (program i).2.take 31 := fun hm => hfits.1 (List.mem_of_mem_take hm)
    have hholds := frame_set_holds fw kb htake (by simp)
    exact ⟨.sending _ _ hrest hholds (take_append_tail_flatten _) hclean,
      fun hf => absurd hf set_ne_finish⟩
  | sending left ps h holds rest hclean =>
    cases ps with
    | nil =>
      rw [hown] at h
      obtain ⟨rfl, hrest⟩ := List.cons.inj h
      refine ⟨.done hrest, fun _ => ?_⟩
      rwa [← rest, List.flatten_nil, List.append_nil]
    | cons p ps =>
      rw [hown] at h
      obtain ⟨rfl, hrest⟩ := List.cons.inj h
      have hp : 0 ∉ p := fun hm => hfits.1 (by simp [← rest, hm])
      have hlen : (left ++ p).length ≤ fw.bufferMax := by
        have hl := hfits.2
        rw [← rest] at hl
        simp at hl ⊢
        omega
      have hholds := frame_append_holds holds hp
      rw [List.take_of_length_le hlen] at hholds
      simp only [clean, if_true, message_frame, append_ne_finish, decide_false, Bool.false_or] at hclean
      refine ⟨.sending (left ++ p) ps hrest hholds ?_ hclean, fun hf => absurd hf append_ne_finish⟩
      rw [← rest, List.flatten_cons, List.append_assoc]
  | done h => exact absurd (hown ▸ h) (by simp)

lemma meet_commits (hfits : ∀ i, Fits fw (program i).2) {e : Event ι} {es : List (Event ι)}
    (hprogress : ∀ i, Progress fw program kb i (e :: es)) (hok : Answered fw kb (e :: es))
    (hsel : StaysSelected fw program kb (e :: es)) (hmixed : unmixed (e :: es) = true) :
    (meet fw kb e).stored = commit fw program kb.stored e ∧
      ∀ i, Progress fw program (meet fw kb e) i es := by
  cases e with
  | key event => exact ⟨key_stored kb event, fun i => (hprogress i).other rfl⟩
  | report j report =>
    obtain ⟨hnext, hholds⟩ := (hprogress j).own (hfits j) hmixed
    constructor
    · by_cases hf : message report = msgFinish
      · exact finish_commits hf hok.1 (hholds hf) (hfits j) (hsel.1 hf)
      · simp only [commit, hf, if_false]
        exact receive_stored fw kb hf
    · intro i
      by_cases hi : j = i
      · exact hi ▸ hnext
      · exact (hprogress i).other (by simp [own, hi])

theorem meetAll_commits (hfits : ∀ i, Fits fw (program i).2) {es : List (Event ι)}
    (hprogress : ∀ i, Progress fw program kb i es) (hok : Answered fw kb es)
    (hsel : StaysSelected fw program kb es) (hmixed : unmixed es = true) :
    (meetAll fw kb es).stored = es.foldl (commit fw program) kb.stored := by
  induction es generalizing kb with
  | nil => rfl
  | cons e es ih =>
    obtain ⟨hstored, hnext⟩ := meet_commits hfits hprogress hok hsel hmixed
    have hmixed' : unmixed es = true := by
      cases e with
      | key event => exact hmixed
      | report j report => exact (Bool.and_eq_true_iff.mp hmixed).2
    rw [List.foldl_cons, ← hstored]
    exact ih hnext hok.2 hsel.2 hmixed'

lemma finish_mem {events : List (Event ι)} (h : Interleaves program events) (i : ι) :
    ∃ report, Event.report i report ∈ events ∧ message report = msgFinish := by
  have hm : frame msgFinish [] ∈ events.filterMap (own i) := by
    rw [h i]
    simp [pairReports, storeReports]
  obtain ⟨e, he, hown⟩ := List.mem_filterMap.mp hm
  cases e with
  | key event => cases hown
  | report j report =>
    simp only [own] at hown
    split_ifs at hown with hj
    obtain rfl := Option.some.inj hown
    exact ⟨_, hj ▸ he, rfl⟩

theorem unmixed_isolated (fw : Build) (program : ι → Bytes × Bytes) (kb : Keyboard)
    (events : List (Event ι)) (hevents : Interleaves program events) (hfits : ∀ i, Fits fw (program i).2)
    (hok : Answered fw kb events) (hsel : StaysSelected fw program kb events)
    (hmixed : unmixed events = true) : Isolated fw program kb (meetAll fw kb events) := by
  have hcommits := meetAll_commits hfits (fun i => Progress.before (hevents i)) hok hsel hmixed
  rw [Isolated, hcommits]
  exact ⟨fun i => commits_own events _ (Or.inl (finish_mem hevents i)), fun c hc => commits_other hc _ _⟩

end Phases

inductive Client
  | first
  | second
  deriving DecidableEq, Repr

def notes : Client → Bytes × Bytes
  | .first => ([97], [104])
  | .second => ([98], [105])

def lateKey : List (Event Client) :=
  [.report .first (frame msgKey [97]), .report .second (frame msgKey [98]),
    .report .first (frame msgSet [104]), .report .first (frame msgFinish []),
    .report .second (frame msgSet [105]), .report .second (frame msgFinish [])]

lemma lateKey_not_isolated :
    ¬ Isolated plainBuild notes plainKeyboard (meetAll plainBuild plainKeyboard lateKey) := by
  intro h
  obtain ⟨j, _, hstored⟩ := h.1 .first
  revert hstored
  cases j <;> decide +kernel

def sharedNotes : Client → Bytes × Bytes
  | .first => ([97], List.replicate 32 104)
  | .second => ([97], [105])

def lateSet : List (Event Client) :=
  [.report .first (frame msgKey [97]), .report .second (frame msgKey [97]),
    .report .first (frame msgSet (List.replicate 31 104)), .report .second (frame msgSet [105]),
    .report .first (frame msgAppend [104]), .report .first (frame msgFinish []),
    .report .second (frame msgFinish [])]

lemma lateSet_not_isolated :
    ¬ Isolated plainBuild sharedNotes plainKeyboard (meetAll plainBuild plainKeyboard lateSet) := by
  intro h
  obtain ⟨j, _, hstored⟩ := h.1 .first
  revert hstored
  cases j <;> decide +kernel

theorem clients_interfere :
    (¬ ∀ events, Interleaves notes events → Answered plainBuild plainKeyboard events →
      Isolated plainBuild notes plainKeyboard (meetAll plainBuild plainKeyboard events)) ∧
    (¬ ∀ events, Interleaves notes events → Answered plainBuild plainKeyboard events →
      unmixed events = true →
        Isolated plainBuild notes plainKeyboard (meetAll plainBuild plainKeyboard events)) ∧
    ¬ ∀ events, Interleaves sharedNotes events → Answered plainBuild plainKeyboard events →
      StaysSelected plainBuild sharedNotes plainKeyboard events →
        Isolated plainBuild sharedNotes plainKeyboard (meetAll plainBuild plainKeyboard events) := by
  have hkey : Interleaves notes lateKey := fun i => by cases i <;> decide
  have hset : Interleaves sharedNotes lateSet := fun i => by cases i <;> decide
  have hanswered : Answered plainBuild plainKeyboard lateKey := ⟨rfl, rfl, rfl, rfl, rfl, rfl, trivial⟩
  refine ⟨fun h => ?_, fun h => ?_, fun h => ?_⟩
  · exact lateKey_not_isolated (h lateKey hkey hanswered)
  · exact lateKey_not_isolated (h lateKey hkey hanswered (by decide))
  · apply lateSet_not_isolated
    apply h lateSet hset
    · exact ⟨rfl, rfl, rfl, rfl, rfl, rfl, rfl, trivial⟩
    · exact ⟨fun h => absurd h key_ne_finish, fun h => absurd h key_ne_finish,
        fun h => absurd h set_ne_finish, fun h => absurd h set_ne_finish,
        fun h => absurd h append_ne_finish, fun _ => rfl, fun _ => rfl, trivial⟩

def inTurn : List (Event Client) :=
  [.report .first (frame msgKey [97]), .report .first (frame msgSet [104]),
    .report .first (frame msgFinish []), .report .second (frame msgKey [98]),
    .report .second (frame msgSet [105]), .report .second (frame msgFinish [])]

theorem unmixed_isolated_notes :
    Isolated plainBuild notes plainKeyboard (meetAll plainBuild plainKeyboard inTurn) := by
  apply unmixed_isolated
  · intro i
    cases i <;> decide
  · intro i
    cases i <;> exact ⟨by decide, by decide⟩
  · exact ⟨rfl, rfl, rfl, rfl, rfl, rfl, trivial⟩
  · exact ⟨fun h => absurd h key_ne_finish, fun h => absurd h set_ne_finish, fun _ => rfl,
      fun h => absurd h key_ne_finish, fun h => absurd h set_ne_finish, fun _ => rfl, trivial⟩
  · decide

end KbReg.Protocol
