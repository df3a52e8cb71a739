import KbReg.Host.Reading
import KbReg.Host.Transfer

namespace KbReg.Host

open KbReg.Firmware KbReg.Runs

-- the `usleep` of `read`, in nanoseconds
def pause : ℕ := 200000

/-- The calls of `hid_read` in one wait, without an end. The clock does not go backwards, and `usleep`
does not come back early. -/
structure Polling where
  start : ℕ
  poll : ℕ → Poll
  started : start ≤ (poll 0).now
  slept : ∀ n, (poll n).now + pause ≤ (poll (n + 1)).now

def Polling.calls (p : Polling) (n : ℕ) : List Poll := (List.range n).map p.poll

def maxCalls (timeout : ℕ) : ℕ := timeout / pause + 2

section Loop

variable {amt timeout start : ℕ} {p : Polling}

lemma read_eq_none {buf : Bytes} {polls : List Poll} (h : read buf amt timeout start polls = none) :
    Waiting amt timeout start polls := by
  induction polls using List.reverseRecOn with
  | nil => exact ⟨fun _ hm => absurd hm List.not_mem_nil, fun hne => absurd rfl hne⟩
  | append_singleton polls poll ih =>
    have hbefore : read buf amt timeout start polls = none := by
      by_contra hsome
      obtain ⟨⟨res, b⟩, hread⟩ := Option.ne_none_iff_exists'.mp hsome
      obtain ⟨called, t, hp, hrest⟩ := (read_eq_run buf polls res b).mp hread
      have hlonger := (read_eq_run buf (polls ++ [poll]) res b).mpr
        ⟨called, t, hp.trans (List.prefix_append _ _), hrest⟩
      rw [h] at hlonger
      cases hlonger
    obtain ⟨r, hr, hnone⟩ := waiting_run (ih hbefore) buf
    obtain ⟨u, hu, -⟩ := readLoop_step amt timeout start hnone poll []
    have hrun := run_snoc hr hu
    apply run_waiting hrun
    by_contra hreturned
    obtain ⟨res, hres⟩ := Option.ne_none_iff_exists'.mp hreturned
    have hread := (read_eq_run buf (polls ++ [poll]) res u.buf).mpr
      ⟨_, u, List.prefix_rfl, hrun, hres, rfl⟩
    rw [h] at hread
    cases hread

lemma Polling.clock (p : Polling) (n : ℕ) : p.start + n * pause ≤ (p.poll n).now := by
  induction n with
  | zero =>
    rw [Nat.zero_mul]
    exact p.started
  | succ n ih =>
    have hstep := p.slept n
    rw [Nat.succ_mul]
    omega

lemma Polling.late (p : Polling) {timeout n : ℕ} (h : timeout / pause < n) :
    (p.poll n).late timeout p.start = true := by
  have hclock := p.clock n
  have hlt : timeout < n * pause := (Nat.div_lt_iff_lt_mul (by decide)).mp h
  rw [Poll.late, decide_eq_true_eq]
  omega

lemma Polling.returns (p : Polling) (buf : Bytes) (amt timeout : ℕ) :
    (read buf amt timeout p.start (p.calls (maxCalls timeout))).isSome := by
  rw [Option.isSome_iff_ne_none]
  intro hnone
  have hwaiting := read_eq_none hnone
  have hmem : p.poll (timeout / pause + 1) ∈ p.calls (maxCalls timeout) :=
    List.mem_map_of_mem (List.mem_range.mpr (Nat.lt_succ_self _))
  have hearly := (hwaiting.1 _ hmem).2
  rw [p.late (Nat.lt_succ_self _)] at hearly
  cases hearly

def Polling.Returned (p : Polling) (n : ℕ) : Prop :=
  (read zeros 32 checkTimeout p.start (p.calls n)).isSome

instance (p : Polling) (n : ℕ) : Decidable (p.Returned n) := inferInstanceAs (Decidable (_ = true))

lemma Polling.ends (p : Polling) : ∃ n, p.Returned n := ⟨_, p.returns zeros 32 checkTimeout⟩

def Polling.count (p : Polling) : ℕ := Nat.find p.ends

lemma Polling.count_le (p : Polling) : p.count ≤ 27 := Nat.find_min' p.ends (p.returns zeros 32 checkTimeout)

def Polling.wait (p : Polling) : Wait := ⟨p.start, p.calls p.count, Nat.find_spec p.ends⟩

end Loop

structure Peer where
  write : ℕ → ℤ
  hidError : ℕ → String
  polling : ℕ → Polling

def Peer.env (peer : Peer) : Env := ⟨peer.write, peer.hidError, fun n => (peer.polling n).wait⟩

lemma Polling.count_returned (p : Polling) : p.Returned p.count := Nat.find_spec p.ends

theorem storeData_timed (peer : Peer) (s : Session) (data : Bytes) :
    ∃ sent, (storeData peer.env s data).written = s.written ++ sent ∧
      sent.length = data.length / 31 + 2 ∧
      (sent.map Written.report)[0]? = some (frame msgSet (data.take 31)) ∧
      (∀ i, 1 ≤ i → i ≤ data.length / 31 →
        (sent.map Written.report)[i]? = some (frame msgAppend ((data.drop (31 * i)).take 31))) ∧
      (sent.map Written.report)[data.length / 31 + 1]? = some (frame msgFinish []) ∧
      (∀ w ∈ sent, w.report.length = 33) ∧
      (storeData peer.env s data).checks = s.checks + sent.length ∧
      ∀ i, ∃ n ≤ 27, (peer.polling i).Returned n := by
  obtain ⟨hlength, hset, happend, hfinish, hwidth⟩ := stamped_store peer.env s.written.length data
  refine ⟨_, storeData_written peer.env s data, hlength, hset, happend, hfinish, hwidth, ?_, ?_⟩
  · rw [storeData_sends, sendAll_checks, hlength, ← storeReports_length, ← storeBuffers_reports,
      List.length_map]
  · intro i
    exact ⟨_, (peer.polling i).count_le, (peer.polling i).count_returned⟩

end KbReg.Host
