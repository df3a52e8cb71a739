import KbReg.Protocol.Registers

namespace KbReg.Protocol

open KbReg.Firmware KbReg.Host KbReg.Pieces

section Answers

variable (fw : Build)

def answers (kb : Keyboard) : List Written → List (Option Response)
  | [] => []
  | w :: ws =>
    (if w.res < 0 then none else (rawHidReceive fw kb w.report.tail).2) ::
      answers (arrive fw kb w) ws

def AllOk (kb : Keyboard) (ws : List Written) : Prop := ∀ a ∈ answers fw kb ws, a = some .ok

instance (kb : Keyboard) (ws : List Written) : Decidable (AllOk fw kb ws) :=
  inferInstanceAs (Decidable (∀ a ∈ answers fw kb ws, a = some .ok))

lemma allOk_nil (kb : Keyboard) : AllOk fw kb [] := by simp [AllOk, answers]

lemma allOk_cons (kb : Keyboard) (w : Written) (ws : List Written) :
    AllOk fw kb (w :: ws) ↔ (0 ≤ w.res ∧ (rawHidReceive fw kb w.report.tail).2 = some .ok) ∧
      AllOk fw (arrive fw kb w) ws := by
  by_cases h : w.res < 0
  · simp [AllOk, answers, h, not_le.mpr h]
  · simp [AllOk, answers, h, not_lt.mp h]

lemma allOk_append (kb : Keyboard) (xs ys : List Written) :
    AllOk fw kb (xs ++ ys) ↔ AllOk fw kb xs ∧ AllOk fw (deliver fw kb xs) ys := by
  induction xs generalizing kb with
  | nil => simp [allOk_nil, deliver]
  | cons x xs ih => simp only [List.cons_append, allOk_cons, deliver_cons, ih, and_assoc]

lemma AllOk.written {fw : Build} {kb : Keyboard} {ws : List Written} (h : AllOk fw kb ws) :
    ∀ w ∈ ws, 0 ≤ w.res := by
  induction ws generalizing kb with
  | nil => simp
  | cons w ws ih =>
    obtain ⟨hw, hrest⟩ := (allOk_cons fw kb w ws).mp h
    intro v hv
    rcases List.mem_cons.mp hv with rfl | hv
    · exact hw.1
    · exact ih hrest v hv

end Answers

variable {fw : Build} {env : Env}

lemma padded_eq_iff {payload : Bytes} (h : payload.length ≤ 31) :
    payload = payload ++ List.replicate (31 - payload.length) 0 ↔ payload.length = 31 := by
  constructor
  · intro he
    have hl := congrArg List.length he
    simp only [List.length_append, List.length_replicate] at hl
    omega
  · intro he
    simp [he]

lemma append_ok_iff {kb : Keyboard} {left payload : Bytes} (h : Holds fw kb left)
    (hd : 0 ∉ payload) (hp : payload.length ≤ 31) :
    (rawHidReceive fw kb (frame msgAppend payload).tail).2 = some .ok ↔
      left.length + payload.length < fw.bufferMax ∨
        payload.length = 31 ∧ left.length + 31 ≤ fw.bufferMax := by
  have hlen : (payload ++ List.replicate (31 - payload.length) 0).length = 31 := by
    simp
    omega
  rw [frame_tail, receive_append, Option.some.injEq, appendLoop_ok_iff h, untilNul_padded hd,
    padded_eq_iff hp, hlen]

def Arrives (env : Env) (n k : ℕ) : Prop := ∀ i < k, 0 ≤ env.write (n + i)

lemma arrives_zero (n : ℕ) : Arrives env n 0 := fun i hi => absurd hi (Nat.not_lt_zero i)

lemma arrives_succ (n k : ℕ) : Arrives env n (k + 1) ↔ 0 ≤ env.write n ∧ Arrives env (n + 1) k := by
  constructor
  · intro h
    refine ⟨h 0 (by omega), fun i hi => ?_⟩
    have hh := h (i + 1) (by omega)
    rwa [show n + (i + 1) = n + 1 + i by omega] at hh
  · rintro ⟨h0, h⟩ i hi
    cases i with
    | zero => exact h0
    | succ i =>
      have hh := h i (by omega)
      rwa [show n + 1 + i = n + (i + 1) by omega] at hh

lemma arrive_append_holds {kb : Keyboard} {left payload : Bytes} (h : Holds fw kb left)
    (hd : 0 ∉ payload) {n : ℕ} (hw : 0 ≤ env.write n)
    (hfit : left.length + payload.length ≤ fw.bufferMax) :
    Holds fw (arrive fw kb ⟨frame msgAppend payload, env.write n⟩) (left ++ payload) := by
  have hh := frame_append_holds h hd
  rw [List.take_of_length_le (by simpa using hfit)] at hh
  rw [arrive, if_neg (not_lt.mpr hw)]
  exact hh

lemma arrive_set_holds (fw : Build) (kb : Keyboard) {payload : Bytes} (hd : 0 ∉ payload)
    (hp : payload.length ≤ 31) {n : ℕ} (hw : 0 ≤ env.write n) :
    Holds fw (arrive fw kb ⟨frame msgSet payload, env.write n⟩) payload := by
  rw [arrive, if_neg (not_lt.mpr hw)]
  exact frame_set_holds fw kb hd hp

/-- The host always sends a last A message that is not full, so a text that ends exactly at the end of
the buffer is refused as well. -/
lemma appends_ok_iff {data : Bytes} (hd : 0 ∉ data) {kb : Keyboard} {left : Bytes}
    (h : Holds fw kb left) (n : ℕ) :
    AllOk fw kb (stamp env n ((pieces 31 data).map (frame msgAppend))) ↔
      Arrives env n (data.length / 31 + 1) ∧ left.length + data.length < fw.bufferMax := by
  induction data using cut_induction (w := 31) (by omega) generalizing kb left n with
  | short data hs =>
    rw [pieces_short hs, List.map_singleton, stamp, stamp, allOk_cons,
      append_ok_iff h hd (Nat.le_of_lt hs), Nat.div_eq_of_lt hs, arrives_succ]
    simp only [arrives_zero, allOk_nil, and_true]
    apply and_congr_right
    intro _
    omega
  | cut data hc ih =>
    have htake : 0 ∉ data.take 31 := fun hm => hd (List.mem_of_mem_take hm)
    have hdrop : 0 ∉ data.drop 31 := fun hm => hd (List.mem_of_mem_drop hm)
    have hlen : (data.take 31).length = 31 := by simp [hc]
    have hcount : data.length / 31 + 1 = (data.drop 31).length / 31 + 1 + 1 := by
      rw [List.length_drop, Nat.div_eq_sub_div (by omega) hc]
    rw [pieces_cut (by omega) hc, List.map_cons, stamp, allOk_cons, append_ok_iff h htake hlen.le,
      hcount, arrives_succ]
    by_cases hfit : 0 ≤ env.write n ∧ left.length + 31 ≤ fw.bufferMax
    · have hnext := arrive_append_holds h htake hfit.1 (by omega)
      rw [ih hdrop hnext (n + 1)]
      simp only [List.length_append, List.length_drop, hlen, hfit, and_self, or_true, true_and]
      apply and_congr_right
      intro _
      omega
    · constructor
      · rintro ⟨⟨hw, hok⟩, _⟩
        exact absurd ⟨hw, by omega⟩ hfit
      · rintro ⟨⟨hw, _⟩, hok⟩
        exact absurd ⟨hw, by omega⟩ hfit

theorem body_ok_iff {data : Bytes} (hd : 0 ∉ data) (kb : Keyboard) (n : ℕ) :
    AllOk fw kb (stamp env n (bodyReports data)) ↔
      Arrives env n (data.length / 31 + 1) ∧ data.length < fw.bufferMax := by
  have htake : 0 ∉ data.take 31 := fun hm => hd (List.mem_of_mem_take hm)
  have hset : (rawHidReceive fw kb (frame msgSet (data.take 31)).tail).2 = some .ok := by
    rw [frame_tail, receive_set]
  rw [bodyReports, stamp, allOk_cons, arrives_succ]
  simp only [hset, and_true, and_assoc]
  apply and_congr_right
  intro hw
  by_cases hs : data.length < 31
  · have hr := fw.report_fits
    simp only [pieces_short hs, List.tail_cons, List.map_nil, stamp, allOk_nil, true_iff,
      Nat.div_eq_of_lt hs, arrives_zero, true_and]
    omega
  · have hle : 31 ≤ data.length := Nat.le_of_not_lt hs
    have hlen : (data.take 31).length = 31 := by simp [hle]
    have hcount : data.length / 31 = (data.drop 31).length / 31 + 1 := by
      rw [List.length_drop, Nat.div_eq_sub_div (by omega) hle]
    rw [pieces_tail hle, appends_ok_iff (fun hm => hd (List.mem_of_mem_drop hm))
      (arrive_set_holds fw kb htake hlen.le hw), hcount]
    apply and_congr_right
    intro _
    simp only [hlen, List.length_drop]
    omega

lemma arrives_last (n k : ℕ) : Arrives env n (k + 1) ↔ Arrives env n k ∧ 0 ≤ env.write (n + k) := by
  constructor
  · intro h
    exact ⟨fun i hi => h i (by omega), h k (by omega)⟩
  · rintro ⟨h, hk⟩ i hi
    rcases Nat.lt_succ_iff_lt_or_eq.mp hi with hi | rfl
    · exact h i hi
    · exact hk

theorem store_ok_iff {data : Bytes} (hd : 0 ∉ data) (kb : Keyboard) (n : ℕ) :
    AllOk fw kb (stamp env n (storeReports data)) ↔
      Arrives env n (data.length / 31 + 2) ∧ data.length < fw.bufferMax ∧ Room fw kb := by
  have hsame := deliver_body_same fw env kb n data
  have hf : (rawHidReceive fw (deliver fw kb (stamp env n (bodyReports data)))
      (frame msgFinish []).tail).2 = some .ok ↔ Room fw kb := by
    rw [frame_tail, receive_finish, Option.some.injEq, finish_response]
    simp [hsame.room]
  rw [storeReports_eq, stamp_append, allOk_append, body_ok_iff hd, stamp, allOk_cons, hf,
    bodyReports_length, show data.length / 31 + 2 = data.length / 31 + 1 + 1 by omega,
    arrives_last n (data.length / 31 + 1)]
  simp only [stamp, allOk_nil, and_true]
  tauto

theorem store_ok_stored {data : Bytes} (hd : 0 ∉ data) {kb : Keyboard} {n : ℕ}
    (h : AllOk fw kb (stamp env n (storeReports data))) :
    (deliver fw kb (stamp env n (storeReports data))).stored (kb.current fw) = some (data ++ [0]) := by
  obtain ⟨harrive, hfit, hroom⟩ := (store_ok_iff hd kb n).mp h
  have hbuffer := deliver_body_holds fw env kb n [] hd (Or.inl (harrive 0 (by omega)))
  rw [staged_all [] data fun i hi => harrive i (by omega),
    List.take_of_length_le (Nat.le_of_lt hfit)] at hbuffer
  rw [stored_after_store, if_pos ⟨harrive _ (by omega), hroom, rfl⟩, copied_of_holds hbuffer hfit]

section Overflow

def bodySent (env : Env) (s : Session) (data : Bytes) : List Written :=
  ((storeData env s data).written.drop s.written.length).dropLast

lemma bodySent_eq (env : Env) (s : Session) (data : Bytes) :
    bodySent env s data = stamp env s.written.length (bodyReports data) := by
  rw [bodySent, storeData_written, List.drop_left, storeReports_eq, stamp_append]
  exact List.dropLast_concat

theorem overflow_iff (fw : Build) (env : Env) (s : Session) (kb : Keyboard) (data : Bytes)
    (hd : 0 ∉ data) (hw : ∀ i < data.length / 31 + 2, 0 ≤ env.write (s.written.length + i)) :
    (AllOk fw kb (bodySent env s data) ↔ data.length ≤ fw.bufferMax - 1) ∧
      (data.length ≤ fw.bufferMax - 1 →
        (deliver fw kb (bodySent env s data)).kbRegisterBufferOffset = data.length ∧
          (deliver fw kb (bodySent env s data)).copied = data ++ [0]) := by
  have hroom := fw.report_fits
  have harrive : Arrives env s.written.length (data.length / 31 + 1) := fun i hi => hw i (by omega)
  rw [bodySent_eq]
  constructor
  · rw [body_ok_iff hd]
    constructor
    · rintro ⟨_, hfit⟩
      omega
    · intro hle
      exact ⟨harrive, by omega⟩
  · intro hle
    have hfit : data.length < fw.bufferMax := by omega
    have hbuffer := deliver_body_holds fw env kb s.written.length [] hd (Or.inl (hw 0 (by omega)))
    rw [staged_all [] data harrive, List.take_of_length_le hfit.le] at hbuffer
    exact ⟨hbuffer.offset, copied_of_holds hbuffer hfit⟩

theorem overflow_iff_greeting :
    AllOk plainBuild plainKeyboard (bodySent (Env.prompt fun _ => 33) Session.fresh [104, 105]) :=
  (overflow_iff plainBuild (Env.prompt fun _ => 33) Session.fresh plainKeyboard [104, 105] (by decide)
    fun _ _ => prompt_write _).1.mpr (by decide)

end Overflow

end KbReg.Protocol
