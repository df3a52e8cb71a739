import KbReg.Host.Reading

/-! What `check_ok` prints, against how the wait for the reply has ended. -/

namespace KbReg.Host

open Runs

def readErrorLine : String := "Error reading from usb device\n"

def timeoutLine : String := "Timeout reading from usb device\n"

def keyboardLine (answer : Bytes) : String := "Error from keyboard: " ++ text answer ++ "\n"

def printed (env : Env) (s : Session) : List String := (checkOk env s).console.drop s.console.length

def Wait.EndsBy (w : Wait) (exit : Exit) : Prop :=
  ∃ before poll, before ++ [poll] <+: w.polls ∧ EndsAt 32 checkTimeout w.start before poll exit

def Wait.Report (w : Wait) (reply : Bytes) : Prop :=
  ∃ before poll, before ++ [poll] <+: w.polls ∧ EndsAt 32 checkTimeout w.start before poll .complete ∧
    received before = [] ∧ reply = poll.data.take 32

variable {env : Env} {s : Session}

lemma take_toList_append (front rest : String) {n : ℕ} (hn : n ≤ front.toList.length) :
    (front ++ rest).toList.take n = front.toList.take n := by
  rw [String.toList_append, List.take_append_of_le_length hn]

lemma keyboardLine_eq (answer : Bytes) :
    keyboardLine answer = "Error from keyboard: " ++ (text answer ++ "\n") :=
  String.append_assoc

lemma keyboardLine_ne_readErrorLine (answer : Bytes) : keyboardLine answer ≠ readErrorLine := by
  intro h
  have hchars := take_toList_append "Error from keyboard: " (text answer ++ "\n") (n := 7) (by decide)
  rw [← keyboardLine_eq, h] at hchars
  revert hchars
  decide

lemma keyboardLine_ne_timeoutLine (answer : Bytes) : keyboardLine answer ≠ timeoutLine := by
  intro h
  have hchars := take_toList_append "Error from keyboard: " (text answer ++ "\n") (n := 1) (by decide)
  rw [← keyboardLine_eq, h] at hchars
  revert hchars
  decide

lemma printed_eq {res : ℤ} {buf : Bytes} (h : (env.wait s.checks).result = (res, buf)) :
    printed env s =
      (if res = -1 then [readErrorLine] else []) ++ (if res = -2 then [timeoutLine] else []) ++
        if 0 < res ∧ cString buf ≠ okText then [keyboardLine (cString buf)] else [] := by
  simp only [printed, checkOk, h]
  by_cases hread : res = -1
  · subst hread
    exact List.drop_left
  · by_cases htime : res = -2
    · subst htime
      exact List.drop_left
    · rw [if_neg hread, if_neg htime, if_neg hread, if_neg htime]
      by_cases hpos : 0 < res
      · by_cases hok : cString buf = okText
        · simp [hpos, hok]
        · rw [if_pos hpos, if_pos hok, if_pos ⟨hpos, hok⟩]
          exact List.drop_left
      · simp [hpos]

lemma result_ends (w : Wait) : ∃ called t, called <+: w.polls ∧
    run (readStep 32 checkTimeout w.start) (Reading.opened zeros) called = some t ∧
    t.returned = some w.result.1 ∧ t.buf = w.result.2 :=
  (read_eq_run zeros w.polls _ _).mp (Option.some_get w.ends).symm

lemma result_of_ends (w : Wait) {before : List Poll} {poll : Poll} {exit : Exit}
    (hp : before ++ [poll] <+: w.polls) (h : EndsAt 32 checkTimeout w.start before poll exit) :
    ∃ t, run (readStep 32 checkTimeout w.start) (Reading.opened zeros) (before ++ [poll]) = some t ∧
      t.returned = some (exit.code 32) ∧ w.result = (exit.code 32, t.buf) := by
  obtain ⟨t, ht, hres⟩ := ends_run h zeros
  have hread := (read_eq_run zeros w.polls _ _).mpr ⟨_, t, hp, ht, hres, rfl⟩
  exact ⟨t, ht, hres, Option.get_of_eq_some w.ends hread⟩

lemma cString_eq_okText {buf : Bytes} (h : 3 ≤ buf.length) :
    cString buf = okText ↔ buf.take 3 = okText ++ [0] := by
  match buf, h with
  | a :: b :: c :: rest, _ =>
    by_cases ha : a = 0
    · subst ha
      simp [cString, okText]
    · by_cases hb : b = 0
      · subst hb
        simp [cString, okText, ha]
      · by_cases hc : c = 0
        · simp [cString, okText, ha, hb, hc]
        · simp [cString, okText, ha, hb, hc]

lemma printed_stopped {exit : Exit} (hexit : exit ≠ .complete) (h : (env.wait s.checks).EndsBy exit) :
    printed env s = [timeoutLine] := by
  obtain ⟨before, poll, hp, hends⟩ := h
  obtain ⟨t, -, -, hresult⟩ := result_of_ends _ hp hends
  cases exit with
  | complete => exact absurd rfl hexit
  | failed => exact printed_eq hresult
  | late => exact printed_eq hresult

lemma printed_complete {before : List Poll} {poll : Poll}
    (hp : before ++ [poll] <+: (env.wait s.checks).polls)
    (h : EndsAt 32 checkTimeout (env.wait s.checks).start before poll .complete) :
    printed env s = [] ∨ ∃ answer, printed env s = [keyboardLine answer] := by
  obtain ⟨t, -, -, hresult⟩ := result_of_ends _ hp h
  rw [printed_eq hresult]
  by_cases hok : cString t.buf = okText
  · exact Or.inl (by simp [hok, Exit.code])
  · exact Or.inr ⟨cString t.buf, by simp [hok, Exit.code]⟩

lemma cString_zeros (bytes : Bytes) (n : ℕ) : cString (bytes ++ List.replicate n 0) = cString bytes := by
  induction bytes with
  | nil => cases n <;> simp [cString, List.replicate_succ]
  | cons b bytes ih =>
    rw [cString] at ih
    simp only [cString, List.cons_append, List.takeWhile_cons, ih]

lemma report_result {w : Wait} {reply : Bytes} (h : w.Report reply) :
    reply.length = 32 ∧ w.result = (32, reply ++ zeros.drop 32) := by
  obtain ⟨before, poll, hp, hends, hnil, rfl⟩ := h
  obtain ⟨t, ht, hres, hresult⟩ := result_of_ends _ hp hends
  have hreply : t.buf.take 32 = poll.data.take 32 := by
    have hwhole : t.buf.take 32 = t.delivered := by
      refine whole_assembled (fun before' poll' heq _ => ?_) ht hres
      rw [← (List.append_inj' heq rfl).1]
      exact hnil
    rw [hwhole, run_delivered ht, received_concat, hnil, List.nil_append]
  have hfull := hends.2.2
  rw [received_concat, hnil, List.nil_append] at hfull
  refine ⟨by rw [List.length_take, Nat.min_eq_left (by simpa using hfull)], ?_⟩
  rw [hresult, ← hreply, ← (run_kept ht).beyond, List.take_append_drop]
  rfl

lemma printed_report {reply : Bytes} (h : (env.wait s.checks).Report reply) :
    printed env s = if reply.take 3 = okText ++ [0] then [] else [keyboardLine (cString reply)] := by
  obtain ⟨hlen, hresult⟩ := report_result h
  have hanswer : cString (reply ++ zeros.drop 32) = cString reply := cString_zeros reply _
  have hok := cString_eq_okText (show 3 ≤ reply.length by omega)
  rw [printed_eq hresult, hanswer]
  by_cases heq : reply.take 3 = okText ++ [0]
  · simp [hok, heq]
  · simp [hok, heq]

structure Diagnoses (w : Wait) (lines : List String) : Prop where
  one : lines = [] ∨ (∃ answer, lines = [keyboardLine answer]) ∨ lines = [readErrorLine] ∨
    lines = [timeoutLine]
  silent : lines = [] ↔ ∃ reply, w.Report reply ∧ reply.take 3 = okText ++ [0]
  answered : (∃ answer, lines = [keyboardLine answer]) ↔
    ∃ reply, w.Report reply ∧ reply.take 3 ≠ okText ++ [0]
  quoted : ∀ reply, w.Report reply → reply.take 3 ≠ okText ++ [0] → lines = [keyboardLine (cString reply)]
  failed : lines = [readErrorLine] ↔ w.EndsBy .failed
  late : lines = [timeoutLine] ↔ w.EndsBy .late

lemma timeoutLine_ne_readErrorLine : timeoutLine ≠ readErrorLine := by decide

lemma report_or_late (w : Wait)
    (h : ∀ before poll, before ++ [poll] <+: w.polls → Waiting 32 checkTimeout w.start before →
      poll.result ≠ .error ∧ (32 ≤ (received (before ++ [poll])).length → received before = [])) :
    (∃ reply, w.Report reply) ∨ w.EndsBy .late := by
  obtain ⟨called, t, hp, ht, hres, -⟩ := result_ends w
  obtain ⟨before, poll, exit, rfl, hends, -⟩ := run_ends ht hres
  obtain ⟨hread, hwhole⟩ := h before poll hp hends.waiting
  cases exit with
  | failed => exact absurd hends.2 hread
  | complete => exact Or.inl ⟨_, before, poll, hp, hends, hwhole hends.2.2, rfl⟩
  | late => exact Or.inr ⟨before, poll, hp, hends⟩

lemma printed_cases (h : (∃ reply, (env.wait s.checks).Report reply) ∨ (env.wait s.checks).EndsBy .late) :
    (printed env s = [] ∧ ∃ reply, (env.wait s.checks).Report reply ∧ reply.take 3 = okText ++ [0]) ∨
    (∃ answer, printed env s = [keyboardLine answer] ∧
      ∃ reply, (env.wait s.checks).Report reply ∧ reply.take 3 ≠ okText ++ [0]) ∨
    printed env s = [timeoutLine] ∧ (env.wait s.checks).EndsBy .late := by
  rcases h with ⟨reply, hreply⟩ | hlate
  · have hlines := printed_report hreply
    by_cases hok : reply.take 3 = okText ++ [0]
    · rw [if_pos hok] at hlines
      exact Or.inl ⟨hlines, reply, hreply, hok⟩
    · rw [if_neg hok] at hlines
      exact Or.inr (Or.inl ⟨cString reply, hlines, reply, hreply, hok⟩)
  · exact Or.inr (Or.inr ⟨printed_stopped (by decide) hlate, hlate⟩)

lemma diagnoses_of_cases (hfailed : ¬ (env.wait s.checks).EndsBy .failed)
    (h : (∃ reply, (env.wait s.checks).Report reply) ∨ (env.wait s.checks).EndsBy .late) :
    Diagnoses (env.wait s.checks) (printed env s) := by
  have hcases := printed_cases h
  refine ⟨?_, ⟨fun hl => ?_, ?_⟩, ⟨?_, ?_⟩, ?_, iff_of_false (fun hl => ?_) hfailed,
    ⟨fun hl => ?_, printed_stopped (by decide)⟩⟩
  · rcases hcases with ⟨hlines, -⟩ | ⟨answer, hlines, -⟩ | ⟨hlines, -⟩
    · exact Or.inl hlines
    · exact Or.inr (Or.inl ⟨answer, hlines⟩)
    · exact Or.inr (Or.inr (Or.inr hlines))
  · rcases hcases with ⟨-, hok⟩ | ⟨answer, hlines, -⟩ | ⟨hlines, -⟩
    · exact hok
    · exact absurd (hl.symm.trans hlines) (by simp)
    · exact absurd (hl.symm.trans hlines) (by simp)
  · rintro ⟨reply, hreply, hok⟩
    rw [printed_report hreply, if_pos hok]
  · rintro ⟨answer, hl⟩
    rcases hcases with ⟨hlines, -⟩ | ⟨-, -, hnot⟩ | ⟨hlines, -⟩
    · exact absurd (hlines.symm.trans hl) (by simp)
    · exact hnot
    · exact absurd (List.singleton_inj.mp (hl.symm.trans hlines)) (keyboardLine_ne_timeoutLine answer)
  · rintro ⟨reply, hreply, hok⟩
    exact ⟨cString reply, by rw [printed_report hreply, if_neg hok]⟩
  · intro reply hreply hok
    rw [printed_report hreply, if_neg hok]
  · rcases hcases with ⟨hlines, -⟩ | ⟨answer, hlines, -⟩ | ⟨hlines, -⟩
    · exact absurd (hlines.symm.trans hl) (by simp)
    · exact keyboardLine_ne_readErrorLine answer (List.singleton_inj.mp (hlines.symm.trans hl))
    · exact timeoutLine_ne_readErrorLine (List.singleton_inj.mp (hlines.symm.trans hl))
  · rcases hcases with ⟨hlines, -⟩ | ⟨answer, hlines, -⟩ | ⟨-, hlate⟩
    · exact absurd (hlines.symm.trans hl) (by simp)
    · exact absurd (List.singleton_inj.mp (hlines.symm.trans hl)) (keyboardLine_ne_timeoutLine answer)
    · exact hlate

/-- `read` returns the same code for a failed call as for a late one, and not the one that `check_ok`
tests for. -/
theorem diagnoses_iff (env : Env) (s : Session) :
    Diagnoses (env.wait s.checks) (printed env s) ↔
      ∀ before poll, before ++ [poll] <+: (env.wait s.checks).polls →
        Waiting 32 checkTimeout (env.wait s.checks).start before →
        poll.result ≠ .error ∧ (32 ≤ (received (before ++ [poll])).length → received before = []) := by
  constructor
  · intro h before poll hp hwait
    have hread : poll.result ≠ .error := by
      intro herr
      have hfailed : (env.wait s.checks).EndsBy .failed := ⟨before, poll, hp, hwait, herr⟩
      have hlines := h.failed.mpr hfailed
      rw [printed_stopped (by decide) hfailed] at hlines
      exact timeoutLine_ne_readErrorLine (List.singleton_inj.mp hlines)
    refine ⟨hread, fun hfull => ?_⟩
    have hends : EndsAt 32 checkTimeout _ before poll .complete := ⟨hwait, hread, hfull⟩
    obtain ⟨reply, before', poll', hp', hends', hnil, -⟩ :
        ∃ reply, (env.wait s.checks).Report reply := by
      rcases printed_complete hp hends with hlines | hlines
      · obtain ⟨reply, hreply, -⟩ := h.silent.mp hlines
        exact ⟨reply, hreply⟩
      · obtain ⟨reply, hreply, -⟩ := h.answered.mp hlines
        exact ⟨reply, hreply⟩
    rw [(ends_once hp hp' hends hends').1]
    exact hnil
  · intro h
    refine diagnoses_of_cases ?_ (report_or_late _ h)
    rintro ⟨before, poll, hp, hwait, herr⟩
    exact (h before poll hp hwait).1 herr

def unplugged : Wait := ⟨0, [⟨.error, 0⟩], rfl⟩

theorem failed_read_called_timeout :
    ¬ Diagnoses unplugged (printed ⟨fun _ => 33, fun _ => "", fun _ => unplugged⟩ Session.fresh) := by
  intro h
  have hfailed : unplugged.EndsBy .failed :=
    ⟨[], ⟨.error, 0⟩, List.prefix_rfl, ⟨by simp, by simp⟩, rfl⟩
  have hlines := h.failed.mpr hfailed
  revert hlines
  decide

end KbReg.Host
