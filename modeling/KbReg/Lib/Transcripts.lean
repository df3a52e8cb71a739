import Mathlib.Data.List.Basic

/-! Machines that answer each input, faults of one against the bad states of another, and observers
that see the inputs and the answers only. -/

namespace KbReg.Transcripts

variable {S T N E O : Type*}

section Definitions

variable (step : S → E → Option (S × O)) (next : T → E → T × O)

def run (s : S) : List E → Option (S × List O)
  | [] => some (s, [])
  | e :: es => (step s e).bind fun r => (run r.1 es).map fun q => (q.1, r.2 :: q.2)

def play (t : T) : List E → T × List O
  | [] => (t, [])
  | e :: es => ((play (next t e).1 es).1, (next t e).2 :: (play (next t e).1 es).2)

structure Simulates (R : S → T → Prop) (ok : T → Prop) : Prop where
  answers : ∀ {s t e}, R s t → ok (next t e).1 →
    ∃ s', step s e = some (s', (next t e).2) ∧ R s' (next t e).1
  faults : ∀ {s t e}, R s t → ok t → ¬ ok (next t e).1 → step s e = none
  before : ∀ {t e}, ok (next t e).1 → ok t

variable (allows : N → E → O → Prop) (observe : N → E → O → N)

def Accepts (n : N) : List (E × O) → Prop
  | [] => True
  | (e, o) :: l => allows n e o ∧ Accepts (observe n e o) l

end Definitions

variable {step : S → E → Option (S × O)} {next : T → E → T × O} {R : S → T → Prop} {ok : T → Prop}

lemma ok_of_play (before : ∀ {t e}, ok (next t e).1 → ok t) {t : T} {es : List E}
    (h : ok (play next t es).1) : ok t := by
  induction es generalizing t with
  | nil => exact h
  | cons e es ih => exact before (ih h)

theorem Simulates.run_answers (h : Simulates step next R ok) {s : S} {t : T} {es : List E} (hr : R s t)
    (hok : ok (play next t es).1) :
    ∃ s', run step s es = some (s', (play next t es).2) ∧ R s' (play next t es).1 := by
  induction es generalizing s t with
  | nil => exact ⟨s, rfl, hr⟩
  | cons e es ih =>
    obtain ⟨u, hu, hru⟩ := h.answers hr (ok_of_play h.before hok)
    obtain ⟨v, hv, hrv⟩ := ih hru hok
    refine ⟨v, ?_, hrv⟩
    rw [run, hu, Option.bind_some, hv]
    rfl

theorem Simulates.run_faults (h : Simulates step next R ok) {s : S} {t : T} {es : List E} (hr : R s t)
    (ht : ok t) (hbad : ¬ ok (play next t es).1) : run step s es = none := by
  induction es generalizing s t with
  | nil => exact absurd ht hbad
  | cons e es ih =>
    by_cases hok : ok (next t e).1
    · obtain ⟨u, hu, hru⟩ := h.answers hr hok
      rw [run, hu, Option.bind_some, ih hru hok hbad]
      rfl
    · rw [run, h.faults hr ht hok]
      rfl

theorem Simulates.run_eq_none_iff (h : Simulates step next R ok) {s : S} {t : T} {es : List E}
    (hr : R s t) (ht : ok t) : run step s es = none ↔ ¬ ok (play next t es).1 := by
  constructor
  · intro hnone hok
    obtain ⟨u, hu, _⟩ := h.run_answers hr hok
    rw [hnone] at hu
    cases hu
  · exact h.run_faults hr ht

lemma play_append (t : T) (es es' : List E) : play next t (es ++ es') =
    ((play next (play next t es).1 es').1, (play next t es).2 ++ (play next (play next t es).1 es').2) := by
  induction es generalizing t with
  | nil => rfl
  | cons e es ih =>
    rw [List.cons_append, play, play, ih]
    rfl

lemma play_length (t : T) (es : List E) : (play next t es).2.length = es.length := by
  induction es generalizing t with
  | nil => rfl
  | cons e es ih => rw [play, List.length_cons, List.length_cons, ih]

variable {allows : N → E → O → Prop} {observe : N → E → O → N} {Q : N → T → Prop}

theorem accepts_play
    (keep : ∀ {n t e}, Q n t → ok (next t e).1 →
      allows n e (next t e).2 ∧ Q (observe n e (next t e).2) (next t e).1)
    (before : ∀ {t e}, ok (next t e).1 → ok t) {n : N} {t : T} {es : List E} (hq : Q n t)
    (hok : ok (play next t es).1) :
    Accepts allows observe n (es.zip (play next t es).2) := by
  induction es generalizing n t with
  | nil => trivial
  | cons e es ih =>
    obtain ⟨hallow, hkeep⟩ := keep hq (ok_of_play before hok)
    exact ⟨hallow, ih hkeep hok⟩

end KbReg.Transcripts
