import KbReg.Host.Session
import KbReg.Lib.Runs
import Mathlib.Data.List.Induction

/-! `read` call by call: what the loop has counted, stored and taken in, and when it returns. -/

namespace KbReg.Host

open Runs

structure Reading where
  count : ℕ
  buf : Bytes
  delivered : Bytes
  returned : Option ℤ
  deriving DecidableEq, Repr

def Reading.opened (buf : Bytes) : Reading := ⟨0, buf, [], none⟩

def Reading.store (amt : ℕ) (late : Bool) (r : Reading) (data : Bytes) : Reading :=
  let stored := data.take (amt - r.count)
  let count := r.count + stored.length
  { count := count
    buf := poke r.buf 0 stored
    delivered := r.delivered ++ stored
    returned := if count = amt then some (count : ℤ) else if late then some (-2) else none }

def Poll.data (poll : Poll) : Bytes :=
  match poll.result with
  | .error => []
  | .bytes data => data

def received (polls : List Poll) : Bytes := polls.flatMap Poll.data

section Loop

variable (amt timeout start : ℕ)

def Poll.late (poll : Poll) : Bool := timeout < poll.now - start

def readStep (r : Reading) (poll : Poll) : Option Reading :=
  match r.returned, poll.result with
  | some _, _ => none
  | none, .error => some { r with returned := some (-2) }
  | none, .bytes data => some (r.store amt (poll.late timeout start) data)

def Waiting (before : List Poll) : Prop :=
  (∀ poll ∈ before, poll.result ≠ .error ∧ poll.late timeout start = false) ∧
    (before ≠ [] → (received before).length < amt)

variable {amt timeout start}

lemma received_concat (before : List Poll) (poll : Poll) :
    received (before ++ [poll]) = received before ++ poll.data := by
  simp [received]

lemma readStep_stopped (r : Reading) (poll : Poll) (h : r.returned ≠ none) :
    readStep amt timeout start r poll = none := by
  obtain ⟨res, hres⟩ := Option.ne_none_iff_exists'.mp h
  rw [readStep, hres]

lemma readStep_cases {r t : Reading} {poll : Poll} (h : readStep amt timeout start r poll = some t) :
    r.returned = none ∧ (poll.result = .error ∧ t = { r with returned := some (-2) } ∨
      poll.result ≠ .error ∧ t = r.store amt (poll.late timeout start) poll.data) := by
  have hr : r.returned = none := by
    by_contra hr
    rw [readStep_stopped r poll hr] at h
    cases h
  refine ⟨hr, ?_⟩
  rw [readStep, hr] at h
  cases hp : poll.result with
  | error =>
    rw [hp] at h
    exact Or.inl ⟨rfl, (Option.some.inj h).symm⟩
  | bytes data =>
    rw [hp] at h
    refine Or.inr ⟨HidRead.noConfusion, ?_⟩
    rw [Poll.data, hp]
    exact (Option.some.inj h).symm

lemma readStep_bytes {r : Reading} {poll : Poll} (hr : r.returned = none) (hp : poll.result ≠ .error) :
    readStep amt timeout start r poll = some (r.store amt (poll.late timeout start) poll.data) := by
  cases hp' : poll.result with
  | error => exact absurd hp' hp
  | bytes data => rw [readStep, hr, hp', Poll.data, hp']

variable (amt timeout start) in
lemma readLoop_step {r : Reading} (hr : r.returned = none) (poll : Poll) (polls : List Poll) :
    ∃ t, readStep amt timeout start r poll = some t ∧
      readLoop amt timeout start (poll :: polls) r.count r.buf =
        match t.returned with
        | some res => some (res, t.buf)
        | none => readLoop amt timeout start polls t.count t.buf := by
  rw [readStep, hr, readLoop]
  cases hp : poll.result with
  | error => exact ⟨_, rfl, rfl⟩
  | bytes data =>
    refine ⟨_, rfl, ?_⟩
    simp only [Reading.store, Poll.late, decide_eq_true_eq]
    split_ifs <;> rfl

lemma readLoop_runs {r : Reading} (hr : r.returned = none) {polls : List Poll} {res : ℤ} {b : Bytes}
    (h : readLoop amt timeout start polls r.count r.buf = some (res, b)) :
    ∃ called t, called <+: polls ∧ run (readStep amt timeout start) r called = some t ∧
      t.returned = some res ∧ t.buf = b := by
  induction polls generalizing r with
  | nil => cases h
  | cons poll polls ih =>
    obtain ⟨u, hu, hloop⟩ := readLoop_step amt timeout start hr poll polls
    rw [hloop] at h
    cases hret : u.returned with
    | some res' =>
      rw [hret] at h
      obtain ⟨rfl, rfl⟩ := Prod.mk.inj (Option.some.inj h)
      refine ⟨[poll], u, ⟨polls, rfl⟩, ?_, hret, rfl⟩
      rw [run, hu]
      rfl
    | none =>
      rw [hret] at h
      obtain ⟨called, t, hp, ht, hres, hb⟩ := ih hret h
      refine ⟨poll :: called, t, List.cons_prefix_cons.mpr ⟨rfl, hp⟩, ?_, hres, hb⟩
      rw [run, hu]
      exact ht

lemma readLoop_of_run {r t : Reading} (hr : r.returned = none) {polls called : List Poll} {res : ℤ}
    (hp : called <+: polls) (ht : run (readStep amt timeout start) r called = some t)
    (hres : t.returned = some res) :
    readLoop amt timeout start polls r.count r.buf = some (res, t.buf) := by
  induction called generalizing r polls with
  | nil =>
    obtain rfl : r = t := Option.some.inj ht
    rw [hr] at hres
    cases hres
  | cons poll called ih =>
    obtain ⟨rest, rfl⟩ := hp
    obtain ⟨u, hu, hloop⟩ := readLoop_step amt timeout start hr poll (called ++ rest)
    obtain ⟨v, hv, ht⟩ := run_cons ht
    obtain rfl : u = v := Option.some.inj (hu.symm.trans hv)
    rw [List.cons_append, hloop]
    cases hret : u.returned with
    | none => exact ih hret ⟨rest, rfl⟩ ht
    | some res' =>
      -- a step after the return would be impossible
      cases called with
      | nil =>
        obtain rfl : u = t := Option.some.inj ht
        rw [hret] at hres
        rw [Option.some.inj hres]
      | cons next called =>
        rw [run, readStep_stopped u next (by simp [hret])] at ht
        cases ht

theorem read_eq_run (buf : Bytes) (polls : List Poll) (res : ℤ) (b : Bytes) :
    read buf amt timeout start polls = some (res, b) ↔
      ∃ called t, called <+: polls ∧
        run (readStep amt timeout start) (Reading.opened buf) called = some t ∧
        t.returned = some res ∧ t.buf = b := by
  constructor
  · intro h
    exact readLoop_runs (r := Reading.opened buf) rfl h
  · rintro ⟨called, t, hp, ht, hres, rfl⟩
    exact readLoop_of_run (r := Reading.opened buf) rfl hp ht hres

structure Reading.Kept (amt : ℕ) (buf : Bytes) (r : Reading) : Prop where
  counted : r.count = r.delivered.length
  bounded : r.count ≤ amt
  front : ∃ front : Bytes, front.length ≤ r.count ∧ r.buf = front ++ buf.drop front.length

lemma Reading.opened_kept (amt : ℕ) (buf : Bytes) : (Reading.opened buf).Kept amt buf :=
  ⟨rfl, Nat.zero_le amt, [], Nat.le_refl 0, rfl⟩

lemma poke_front (front buf stored : Bytes) :
    poke (front ++ buf.drop front.length) 0 stored =
      stored ++ front.drop stored.length ++
        buf.drop (stored ++ front.drop stored.length).length := by
  have hlen : (stored ++ front.drop stored.length).length =
      front.length + (stored.length - front.length) := by
    rw [List.length_append, List.length_drop]
    omega
  rw [hlen, poke, List.take_zero, List.nil_append, Nat.zero_add, List.drop_append, List.drop_drop,
    List.append_assoc]

lemma Reading.Kept.store {r : Reading} {buf : Bytes} (h : r.Kept amt buf) (late : Bool) (data : Bytes) :
    (r.store amt late data).Kept amt buf := by
  obtain ⟨hcount, hle, front, hfront, hbuf⟩ := h
  have hstored : (data.take (amt - r.count)).length ≤ amt - r.count := List.length_take_le _ _
  refine ⟨?_, ?_, data.take (amt - r.count) ++ front.drop (data.take (amt - r.count)).length, ?_, ?_⟩
  · rw [Reading.store, List.length_append, ← hcount]
  · change r.count + (data.take (amt - r.count)).length ≤ amt
    omega
  · change _ ≤ r.count + (data.take (amt - r.count)).length
    rw [List.length_append, List.length_drop]
    omega
  · change poke r.buf 0 (data.take (amt - r.count)) = _
    rw [hbuf]
    exact poke_front front buf _

lemma readStep_kept {buf : Bytes} {r t : Reading} {poll : Poll} (h : r.Kept amt buf)
    (ht : readStep amt timeout start r poll = some t) : t.Kept amt buf := by
  rcases (readStep_cases ht).2 with ⟨-, rfl⟩ | ⟨-, rfl⟩
  · exact ⟨h.counted, h.bounded, h.front⟩
  · exact h.store _ _

lemma run_kept {buf : Bytes} {called : List Poll} {t : Reading}
    (h : run (readStep amt timeout start) (Reading.opened buf) called = some t) : t.Kept amt buf :=
  invariant readStep_kept h (Reading.opened_kept amt buf)

lemma Reading.Kept.beyond {r : Reading} {buf : Bytes} (h : r.Kept amt buf) :
    r.buf.drop amt = buf.drop amt := by
  obtain ⟨_, hle, front, hfront, hbuf⟩ := h
  rw [hbuf, List.drop_append, List.drop_of_length_le (by omega), List.nil_append, List.drop_drop]
  congr 1
  omega

lemma Reading.Kept.length_buf {r : Reading} {buf : Bytes} (h : r.Kept amt buf) (hamt : amt ≤ buf.length) :
    r.buf.length = buf.length := by
  obtain ⟨_, hle, front, hfront, hbuf⟩ := h
  rw [hbuf, List.length_append, List.length_drop]
  omega

lemma take_append_take (n : ℕ) (xs ys : Bytes) : (xs.take n ++ ys).take n = (xs ++ ys).take n := by
  rw [List.take_append, List.take_append, List.take_take, List.length_take, Nat.min_self]
  congr 2
  omega

lemma Reading.Kept.store_delivered {r : Reading} {buf : Bytes} (h : r.Kept amt buf) (late : Bool)
    (data : Bytes) : (r.store amt late data).delivered = (r.delivered ++ data).take amt := by
  rw [List.take_append, List.take_of_length_le (h.counted ▸ h.bounded), ← h.counted]
  rfl

lemma Reading.store_returned {r : Reading} (h : r.count ≤ amt) (late : Bool) (data : Bytes) :
    (r.store amt late data).returned =
      if amt ≤ r.count + data.length then some (amt : ℤ) else if late then some (-2) else none := by
  have hfull : r.count + (data.take (amt - r.count)).length = amt ↔ amt ≤ r.count + data.length := by
    rw [List.length_take]
    omega
  change (if r.count + (data.take (amt - r.count)).length = amt then some _ else _) = _
  by_cases hamt : amt ≤ r.count + data.length
  · rw [if_pos hamt, hfull.mpr hamt, if_pos rfl]
  · rw [if_neg hamt, if_neg fun heq => hamt (hfull.mp heq)]

lemma run_delivered {buf : Bytes} {called : List Poll} {t : Reading}
    (h : run (readStep amt timeout start) (Reading.opened buf) called = some t) :
    t.delivered = (received called).take amt := by
  induction called using List.reverseRecOn generalizing t with
  | nil =>
    obtain rfl : Reading.opened buf = t := Option.some.inj h
    rw [received, List.flatMap_nil, List.take_nil]
    rfl
  | append_singleton before poll ih =>
    obtain ⟨r, hr, ht⟩ := run_concat h
    rw [received_concat]
    rcases (readStep_cases ht).2 with ⟨herr, rfl⟩ | ⟨-, rfl⟩
    · have hsame := ih hr
      rw [Poll.data, herr, List.append_nil]
      exact hsame
    · rw [(run_kept hr).store_delivered, ih hr, take_append_take]

lemma Waiting.length_le {before : List Poll} (h : Waiting amt timeout start before) :
    (received before).length ≤ amt := by
  cases before with
  | nil => exact Nat.zero_le amt
  | cons poll before => exact (h.2 (List.cons_ne_nil _ _)).le

lemma waiting_concat (before : List Poll) (poll : Poll) :
    Waiting amt timeout start (before ++ [poll]) ↔
      Waiting amt timeout start before ∧ poll.result ≠ .error ∧ poll.late timeout start = false ∧
        (received (before ++ [poll])).length < amt := by
  constructor
  · rintro ⟨hpolls, hlen⟩
    have hlt := hlen (List.append_ne_nil_of_right_ne_nil _ (List.cons_ne_nil _ _))
    refine ⟨⟨fun p hp => hpolls p (List.mem_append_left _ hp), fun _ => ?_⟩, ?_, ?_, hlt⟩
    · rw [received_concat, List.length_append] at hlt
      omega
    · exact (hpolls poll (by simp)).1
    · exact (hpolls poll (by simp)).2
  · rintro ⟨hbefore, herr, hlate, hlt⟩
    refine ⟨fun p hp => ?_, fun _ => hlt⟩
    rcases List.mem_append.mp hp with hp | hp
    · exact hbefore.1 p hp
    · rw [List.mem_singleton.mp hp]
      exact ⟨herr, hlate⟩

lemma waiting_count {buf : Bytes} {before : List Poll} {r : Reading}
    (h : Waiting amt timeout start before)
    (hr : run (readStep amt timeout start) (Reading.opened buf) before = some r) :
    r.delivered = received before ∧ r.count = (received before).length := by
  have hdelivered := run_delivered hr
  rw [List.take_of_length_le h.length_le] at hdelivered
  exact ⟨hdelivered, hdelivered ▸ (run_kept hr).counted⟩

lemma waiting_returned {buf : Bytes} {before : List Poll} {r : Reading}
    (h : Waiting amt timeout start before)
    (hr : run (readStep amt timeout start) (Reading.opened buf) before = some r) (poll : Poll) :
    (r.store amt (poll.late timeout start) poll.data).returned =
      if amt ≤ (received (before ++ [poll])).length then some (amt : ℤ)
      else if poll.late timeout start then some (-2) else none := by
  rw [Reading.store_returned (run_kept hr).bounded, received_concat, List.length_append,
    (waiting_count h hr).2]

lemma run_waiting {buf : Bytes} {before : List Poll} {r : Reading}
    (hr : run (readStep amt timeout start) (Reading.opened buf) before = some r)
    (hret : r.returned = none) : Waiting amt timeout start before := by
  induction before using List.reverseRecOn generalizing r with
  | nil => exact ⟨fun _ hp => absurd hp List.not_mem_nil, fun h => absurd rfl h⟩
  | append_singleton before poll ih =>
    obtain ⟨q, hq, hstep⟩ := run_concat hr
    obtain ⟨hnone, hcases⟩ := readStep_cases hstep
    have hbefore := ih hq hnone
    rcases hcases with ⟨-, rfl⟩ | ⟨herr, rfl⟩
    · cases hret
    · rw [waiting_returned hbefore hq] at hret
      split_ifs at hret with hfull hlate
      exact (waiting_concat before poll).mpr
        ⟨hbefore, herr, by simpa using hlate, Nat.lt_of_not_le hfull⟩

lemma waiting_run {before : List Poll} (h : Waiting amt timeout start before) (buf : Bytes) :
    ∃ r, run (readStep amt timeout start) (Reading.opened buf) before = some r ∧
      r.returned = none := by
  induction before using List.reverseRecOn with
  | nil => exact ⟨Reading.opened buf, rfl, rfl⟩
  | append_singleton before poll ih =>
    obtain ⟨hbefore, herr, hlate, hlt⟩ := (waiting_concat before poll).mp h
    obtain ⟨r, hr, hnone⟩ := ih hbefore
    refine ⟨_, run_snoc hr (readStep_bytes hnone herr), ?_⟩
    rw [waiting_returned hbefore hr, if_neg (Nat.not_le_of_lt hlt), hlate]
    rfl

inductive Exit
  | failed
  | complete
  | late
  deriving DecidableEq, Repr

def Exit.code (amt : ℕ) : Exit → ℤ
  | .complete => amt
  | _ => -2

def EndsAt (amt timeout start : ℕ) (before : List Poll) (poll : Poll) : Exit → Prop
  | .failed => Waiting amt timeout start before ∧ poll.result = .error
  | .complete => Waiting amt timeout start before ∧ poll.result ≠ .error ∧
      amt ≤ (received (before ++ [poll])).length
  | .late => Waiting amt timeout start before ∧ poll.result ≠ .error ∧
      (received (before ++ [poll])).length < amt ∧ poll.late timeout start = true

lemma run_ends {buf : Bytes} {called : List Poll} {t : Reading} {res : ℤ}
    (h : run (readStep amt timeout start) (Reading.opened buf) called = some t)
    (hres : t.returned = some res) :
    ∃ before poll exit, called = before ++ [poll] ∧ EndsAt amt timeout start before poll exit ∧
      exit.code amt = res := by
  rcases List.eq_nil_or_concat called with rfl | ⟨before, poll, rfl⟩
  · obtain rfl : Reading.opened buf = t := Option.some.inj h
    cases hres
  · rw [List.concat_eq_append] at h
    obtain ⟨r, hr, ht⟩ := run_concat h
    obtain ⟨hnone, hcases⟩ := readStep_cases ht
    have hwait := run_waiting hr hnone
    rcases hcases with ⟨herr, rfl⟩ | ⟨hread, rfl⟩
    · exact ⟨before, poll, .failed, List.concat_eq_append, ⟨hwait, herr⟩, Option.some.inj hres⟩
    · rw [waiting_returned hwait hr] at hres
      split_ifs at hres with hfull hlate
      · exact ⟨before, poll, .complete, List.concat_eq_append, ⟨hwait, hread, hfull⟩,
          Option.some.inj hres⟩
      · exact ⟨before, poll, .late, List.concat_eq_append, ⟨hwait, hread, Nat.lt_of_not_le hfull, hlate⟩,
          Option.some.inj hres⟩

lemma EndsAt.waiting {before : List Poll} {poll : Poll} {exit : Exit}
    (h : EndsAt amt timeout start before poll exit) : Waiting amt timeout start before := by
  cases exit with
  | failed => exact h.1
  | complete => exact h.1
  | late => exact h.1

lemma ends_run {before : List Poll} {poll : Poll} {exit : Exit}
    (h : EndsAt amt timeout start before poll exit) (buf : Bytes) :
    ∃ t, run (readStep amt timeout start) (Reading.opened buf) (before ++ [poll]) = some t ∧
      t.returned = some (exit.code amt) := by
  obtain ⟨r, hr, hnone⟩ := waiting_run h.waiting buf
  cases exit with
  | failed =>
    refine ⟨{ r with returned := some (-2) }, run_snoc hr ?_, rfl⟩
    rw [readStep, hnone, h.2]
  | complete =>
    refine ⟨_, run_snoc hr (readStep_bytes hnone h.2.1), ?_⟩
    rw [waiting_returned h.1 hr, if_pos h.2.2]
    rfl
  | late =>
    refine ⟨_, run_snoc hr (readStep_bytes hnone h.2.1), ?_⟩
    rw [waiting_returned h.1 hr, if_neg (Nat.not_le_of_lt h.2.2.1), if_pos h.2.2.2]
    rfl

lemma ends_once {polls before before' : List Poll} {poll poll' : Poll} {exit exit' : Exit}
    (hp : before ++ [poll] <+: polls) (hp' : before' ++ [poll'] <+: polls)
    (h : EndsAt amt timeout start before poll exit) (h' : EndsAt amt timeout start before' poll' exit') :
    before = before' ∧ poll = poll' := by
  obtain ⟨t, ht, hres⟩ := ends_run h []
  obtain ⟨u, hu, hres'⟩ := ends_run h' []
  have heq := stops_once readStep_stopped hp hp' ht hu (by simp [hres]) (by simp [hres'])
  obtain ⟨hbefore, hpoll⟩ := List.append_inj' heq rfl
  exact ⟨hbefore, List.singleton_inj.mp hpoll⟩

/-- A complete reply is delivered in time, in however many pieces, and it says OK. -/
def Wait.Ok (w : Wait) : Prop :=
  ∃ before poll, before ++ [poll] <+: w.polls ∧ EndsAt 32 checkTimeout w.start before poll .complete ∧
    (received (before ++ [poll])).take 3 = okText ++ [0]

lemma ok_single {start now : ℕ} {data : Bytes}
    (h : (read zeros 32 checkTimeout start [⟨.bytes data, now⟩]).isSome) :
    (⟨start, [⟨.bytes data, now⟩], h⟩ : Wait).Ok ↔ 32 ≤ data.length ∧ data.take 3 = okText ++ [0] := by
  have hdata : received [⟨.bytes data, now⟩] = data := List.append_nil data
  constructor
  · rintro ⟨before, poll, hp, hends, hok⟩
    have hone : before ++ [poll] = [⟨.bytes data, now⟩] := by
      obtain ⟨rest, hrest⟩ := hp
      have hlen := congrArg List.length hrest
      simp only [List.length_append, List.length_singleton] at hlen
      obtain rfl : rest = [] := List.length_eq_zero_iff.mp (by omega)
      rwa [List.append_nil] at hrest
    have hfull := hends.2.2
    rw [hone, hdata] at hok hfull
    exact ⟨hfull, hok⟩
  · rintro ⟨hfull, hok⟩
    refine ⟨[], _, List.prefix_rfl, ⟨⟨nofun, fun hne => absurd rfl hne⟩, nofun, ?_⟩, ?_⟩
    · rw [List.nil_append, hdata]
      exact hfull
    · rw [List.nil_append, hdata]
      exact hok

lemma promptOk_ok : promptOk.Ok := (ok_single _).mpr ⟨le_refl 32, rfl⟩

def Assembles (amt timeout start : ℕ) (polls : List Poll) : Prop :=
  ∀ buf : Bytes, amt ≤ buf.length →
    (∀ b, read buf amt timeout start polls = some ((amt : ℤ), b) →
      ∃ called t, called <+: polls ∧
        run (readStep amt timeout start) (Reading.opened buf) called = some t ∧
        t.returned = some (amt : ℤ) ∧ t.buf = b ∧ b.take amt = t.delivered) ∧
    ∀ called t, called <+: polls →
      run (readStep amt timeout start) (Reading.opened buf) called = some t →
      t.count ≤ amt ∧ t.buf.length = buf.length ∧ t.buf.drop amt = buf.drop amt

lemma complete_step {buf : Bytes} {before : List Poll} {poll : Poll} {t : Reading}
    (hends : EndsAt amt timeout start before poll .complete)
    (ht : run (readStep amt timeout start) (Reading.opened buf) (before ++ [poll]) = some t) :
    ∃ r, run (readStep amt timeout start) (Reading.opened buf) before = some r ∧
      t = r.store amt (poll.late timeout start) poll.data := by
  obtain ⟨r, hr, hstep⟩ := run_concat ht
  obtain ⟨-, ⟨herr, -⟩ | ⟨-, hstored⟩⟩ := readStep_cases hstep
  · exact absurd herr hends.2.1
  · exact ⟨r, hr, hstored⟩

lemma whole_assembled {buf : Bytes} {called : List Poll} {t : Reading}
    (hwhole : ∀ before poll, called = before ++ [poll] → EndsAt amt timeout start before poll .complete →
      received before = [])
    (ht : run (readStep amt timeout start) (Reading.opened buf) called = some t)
    (hres : t.returned = some (amt : ℤ)) : t.buf.take amt = t.delivered := by
  obtain ⟨before, poll, exit, rfl, hends, hcode⟩ := run_ends ht hres
  cases exit with
  | failed => exact absurd hcode (by simp [Exit.code])
  | late => exact absurd hcode (by simp [Exit.code])
  | complete =>
    obtain ⟨r, hr, rfl⟩ := complete_step hends ht
    have hnil := hwhole before poll rfl hends
    obtain ⟨hdelivered, hcount⟩ := waiting_count hends.1 hr
    rw [hnil, List.length_nil] at hcount
    have hlen : (poll.data.take amt).length = amt := by
      have hfull := hends.2.2
      rw [received_concat, hnil, List.nil_append] at hfull
      rw [List.length_take, Nat.min_eq_left hfull]
    simp only [Reading.store, hcount, hdelivered, hnil, Nat.sub_zero, List.nil_append, poke,
      List.take_zero]
    exact List.take_left' hlen

lemma split_keeps_last {buf : Bytes} {before : List Poll} {poll : Poll} {t : Reading}
    (hends : EndsAt amt timeout start before poll .complete) (hsplit : received before ≠ [])
    (ht : run (readStep amt timeout start) (Reading.opened buf) (before ++ [poll]) = some t) :
    t.buf[amt - 1]? = buf[amt - 1]? := by
  obtain ⟨r, hr, rfl⟩ := complete_step hends ht
  have hpos := List.length_pos_iff.mpr hsplit
  have hlt : (received before).length < amt := hends.1.2 (by rintro rfl; exact hsplit rfl)
  obtain ⟨-, hcount⟩ := waiting_count hends.1 hr
  obtain ⟨-, -, front, hfront, hbuf⟩ := run_kept hr
  have hstored : (poll.data.take (amt - r.count)).length ≤ amt - r.count := List.length_take_le _ _
  -- neither what is at the front already nor the last piece on top of it reaches that far
  have hshort : (poll.data.take (amt - r.count) ++
      front.drop (poll.data.take (amt - r.count)).length).length ≤ amt - 1 := by
    rw [List.length_append, List.length_drop]
    omega
  change (poke r.buf 0 (poll.data.take (amt - r.count)))[amt - 1]? = _
  rw [hbuf, poke_front, List.getElem?_append_right hshort, List.getElem?_drop]
  congr 1
  omega

/-- The loop never moves the pointer that it gives to `hid_read`, so a reply has to come in one piece. -/
theorem read_assembles_iff (amt timeout start : ℕ) (polls : List Poll) :
    Assembles amt timeout start polls ↔
      ∀ before poll, before ++ [poll] <+: polls → Waiting amt timeout start before →
        poll.result ≠ .error → amt ≤ (received (before ++ [poll])).length → received before = [] := by
  constructor
  · intro h before poll hp hwait hread hfull
    by_contra hsplit
    have hends : EndsAt amt timeout start before poll .complete := ⟨hwait, hread, hfull⟩
    have hlt : (received before).length < amt := hwait.2 (by rintro rfl; exact hsplit rfl)
    obtain ⟨x, hx⟩ : ∃ x, ((received (before ++ [poll])).take amt)[amt - 1]? = some x :=
      ⟨_, List.getElem?_eq_getElem (by rw [List.length_take]; omega)⟩
    -- a buffer that holds something else at the place of the last byte
    obtain ⟨t, ht, hres⟩ := ends_run hends (List.replicate amt (x + 1))
    have hread := (read_eq_run _ polls _ _).mpr ⟨_, t, hp, ht, hres, rfl⟩
    obtain ⟨called, u, hq, hu, hres', hbuf, hreply⟩ := (h _ (by simp)).1 _ hread
    obtain rfl := stops_once readStep_stopped hp hq ht hu (by simp [hres]) (by simp [hres'])
    rw [run_delivered hu] at hreply
    have hlast := congrArg (fun bytes => bytes[amt - 1]?) hreply
    simp only [hx] at hlast
    rw [List.getElem?_take_of_lt (by omega), split_keeps_last hends hsplit ht,
      List.getElem?_replicate_of_lt (by omega)] at hlast
    have hne := Option.some.inj hlast
    simp at hne
  · intro h buf hamt
    refine ⟨fun b hb => ?_, fun called t _ ht => ?_⟩
    · obtain ⟨called, t, hp, ht, hres, rfl⟩ := (read_eq_run buf polls amt b).mp hb
      refine ⟨called, t, hp, ht, hres, rfl, whole_assembled (fun before poll hcalled hends => ?_) ht hres⟩
      exact h before poll (hcalled ▸ hp) hends.1 hends.2.1 hends.2.2
    · have hkept := run_kept ht
      exact ⟨hkept.bounded, hkept.length_buf hamt, hkept.beyond⟩

def halves : List Poll :=
  [⟨.bytes (okText ++ List.replicate 14 0), 0⟩, ⟨.bytes (List.replicate 16 1), 0⟩]

lemma halves_run : run (readStep 32 checkTimeout 0) (Reading.opened zeros) halves =
    some ⟨32, List.replicate 16 1 ++ zeros.drop 16,
      okText ++ List.replicate 14 0 ++ List.replicate 16 1, some 32⟩ := by
  decide +kernel

theorem halves_not_assembled : ¬ Assembles 32 checkTimeout 0 halves := by
  intro h
  have hroom : 32 ≤ zeros.length := (Nat.le_of_ble_eq_true rfl).trans_eq List.length_replicate.symm
  have hread : read zeros 32 checkTimeout 0 halves =
      some (((32 : ℕ) : ℤ), List.replicate 16 1 ++ zeros.drop 16) := by
    decide +kernel
  obtain ⟨called, t, hp, ht, hres, -, hreply⟩ := (h zeros hroom).1 _ hread
  obtain rfl := stops_once readStep_stopped hp List.prefix_rfl ht halves_run (by simp [hres]) (by simp)
  rw [halves_run] at ht
  obtain rfl := Option.some.inj ht
  revert hreply
  decide +kernel

end Loop

end KbReg.Host
