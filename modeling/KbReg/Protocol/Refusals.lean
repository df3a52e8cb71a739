import KbReg.Protocol.Answers

namespace KbReg.Protocol

open KbReg.Firmware KbReg.Host KbReg.Pieces

def refused (fw : Build) (left length : ℕ) : ℕ :=
  if left + length < fw.bufferMax then 0 else length / 31 - (fw.bufferMax - left) / 31 + 1

def accepted (count refused : ℕ) : List (Option Response) :=
  List.replicate (count - refused) (some .ok) ++ List.replicate refused (some .overflow)

variable {fw : Build} {env : Env}

lemma answers_append (kb : Keyboard) (xs ys : List Written) :
    answers fw kb (xs ++ ys) = answers fw kb xs ++ answers fw (deliver fw kb xs) ys := by
  induction xs generalizing kb with
  | nil => rfl
  | cons x xs ih =>
    rw [List.cons_append, answers, answers, ih, deliver_cons]
    rfl

lemma append_answer {kb : Keyboard} {left payload : Bytes} (h : Holds fw kb left) (hd : 0 ∉ payload)
    (hp : payload.length ≤ 31) : (rawHidReceive fw kb (frame msgAppend payload).tail).2 = some
      (if left.length + payload.length < fw.bufferMax ∨
          payload.length = 31 ∧ left.length + 31 ≤ fw.bufferMax then .ok else .overflow) := by
  have hiff := append_ok_iff h hd hp
  split_ifs with hfit
  · exact hiff.mpr hfit
  · have hnot := mt hiff.mp hfit
    rw [frame_tail, receive_append] at hnot ⊢
    rcases appendLoop_response kb (payload ++ List.replicate (31 - payload.length) 0) with hok | hover
    · exact absurd (congrArg some hok) hnot
    · exact congrArg some hover

lemma accepted_ok {count refused : ℕ} (h : refused ≤ count) :
    some .ok :: accepted count refused = accepted (count + 1) refused := by
  rw [accepted, accepted, Nat.succ_sub h, List.replicate_succ, List.cons_append]

lemma accepted_none (count : ℕ) : accepted count count = List.replicate count (some .overflow) := by
  simp [accepted]

lemma refused_le {left length : ℕ} : refused fw left length ≤ length / 31 + 1 := by
  rw [refused]
  split_ifs <;> omega

lemma refused_cut (fw : Build) (left : ℕ) {length : ℕ} (hlong : 31 ≤ length) (hfit : left + 31 ≤ fw.bufferMax) :
    refused fw (left + 31) (length - 31) = refused fw left length := by
  rw [refused, refused, show left + 31 + (length - 31) = left + length by omega]
  split_ifs <;> omega

lemma refused_full {length : ℕ} : refused fw fw.bufferMax length = length / 31 + 1 := by
  simp [refused]

lemma appends_answers {data : Bytes} (hd : 0 ∉ data) {kb : Keyboard} {left : Bytes}
    (h : Holds fw kb left) (n : ℕ) (hw : Arrives env n (data.length / 31 + 1)) :
    answers fw kb (stamp env n ((pieces 31 data).map (frame msgAppend))) =
      accepted (data.length / 31 + 1) (refused fw left.length data.length) := by
  induction data using cut_induction (w := 31) (by omega) generalizing kb left n with
  | short data hs =>
    have hfirst : ¬ env.write n < 0 := not_lt.mpr (hw 0 (by omega))
    rw [pieces_short hs, List.map_singleton, stamp, stamp, answers, answers, if_neg hfirst,
      append_answer h hd hs.le, Nat.div_eq_of_lt hs]
    have hone : refused fw left.length data.length =
        if left.length + data.length < fw.bufferMax then 0 else 1 := by
      rw [refused]
      split_ifs <;> omega
    rw [hone]
    by_cases hfit : left.length + data.length < fw.bufferMax
    · rw [if_pos (Or.inl hfit), if_pos hfit]
      rfl
    · rw [if_neg (by omega), if_neg hfit]
      rfl
  | cut data hc ih =>
    have htake : 0 ∉ data.take 31 := fun hm => hd (List.mem_of_mem_take hm)
    have hdrop : 0 ∉ data.drop 31 := fun hm => hd (List.mem_of_mem_drop hm)
    have hlen : (data.take 31).length = 31 := by simp [hc]
    have hcount : data.length / 31 = (data.drop 31).length / 31 + 1 := by
      rw [List.length_drop, Nat.div_eq_sub_div (by omega) hc]
    rw [hcount, arrives_succ] at hw
    have hfirst : ¬ env.write n < 0 := not_lt.mpr hw.1
    rw [pieces_cut (by omega) hc, List.map_cons, stamp, answers, if_neg hfirst,
      append_answer h htake hlen.le, hcount]
    by_cases hfit : left.length + 31 ≤ fw.bufferMax
    · have hnext := arrive_append_holds h htake hw.1 (by omega)
      have hle : refused fw left.length data.length ≤ (data.length - 31) / 31 + 1 := by
        rw [← refused_cut fw _ hc hfit]
        exact refused_le
      rw [if_pos (Or.inr ⟨hlen, hfit⟩), ih hdrop hnext (n + 1) hw.2, List.length_append, hlen,
        List.length_drop, refused_cut fw _ hc hfit]
      exact accepted_ok hle
    · -- the buffer is full from here on
      have hnext : Holds fw (arrive fw kb ⟨frame msgAppend (data.take 31), env.write n⟩)
          ((left ++ data.take 31).take fw.bufferMax) := by
        rw [arrive, if_neg hfirst]
        exact frame_append_holds h htake
      have hfull : ((left ++ data.take 31).take fw.bufferMax).length = fw.bufferMax := by
        simp only [List.length_take, List.length_append]
        omega
      have hall : refused fw left.length data.length = (data.drop 31).length / 31 + 1 + 1 := by
        have hgap : (fw.bufferMax - left.length) / 31 = 0 := Nat.div_eq_of_lt (by omega)
        rw [refused, if_neg (by omega), hgap, Nat.sub_zero, hcount]
      rw [if_neg (by omega), ih hdrop hnext (n + 1) hw.2, hfull, refused_full, hall, accepted_none,
        accepted_none]
      exact List.replicate_succ.symm

theorem store_answers {data : Bytes} (hd : 0 ∉ data) (kb : Keyboard) (n : ℕ)
    (hw : Arrives env n (data.length / 31 + 2)) :
    answers fw kb (stamp env n (storeReports data)) =
      accepted (data.length / 31 + 1) (refused fw 0 data.length) ++
        [some (if Room fw kb then .ok else .outOfMemory)] := by
  have htake : 0 ∉ data.take 31 := fun hm => hd (List.mem_of_mem_take hm)
  have hsame := deliver_body_same fw env kb n data
  have hset : ¬ env.write n < 0 := not_lt.mpr (hw 0 (by omega))
  have hlast : ¬ env.write (n + (data.length / 31 + 1)) < 0 := not_lt.mpr (hw _ (by omega))
  rw [storeReports_eq, stamp_append, answers_append, bodyReports_length]
  congr 1
  · have hs : (rawHidReceive fw kb (frame msgSet (data.take 31)).tail).2 = some .ok := by
      rw [frame_tail, receive_set]
    rw [bodyReports, stamp, answers, if_neg hset, hs]
    by_cases hshort : data.length < 31
    · have hr := fw.report_fits
      rw [pieces_short hshort, Nat.div_eq_of_lt hshort, refused, if_pos (by omega)]
      rfl
    · have hle : 31 ≤ data.length := Nat.le_of_not_lt hshort
      have hlen : (data.take 31).length = 31 := by simp [hle]
      have hcount : data.length / 31 = (data.drop 31).length / 31 + 1 := by
        rw [List.length_drop, Nat.div_eq_sub_div (by omega) hle]
      have hrest : Arrives env (n + 1) ((data.drop 31).length / 31 + 1) := by
        rw [← hcount]
        exact fun i hi => by
          have hh := hw (i + 1) (by omega)
          rwa [show n + (i + 1) = n + 1 + i by omega] at hh
      rw [pieces_tail hle, appends_answers (fun hm => hd (List.mem_of_mem_drop hm))
        (arrive_set_holds fw kb htake hlen.le (not_lt.mp hset)) (n + 1) hrest, hlen, List.length_drop]
      have hroom := fw.report_fits
      have hcut := refused_cut fw 0 hle (by omega)
      rw [Nat.zero_add] at hcut
      have hbound : refused fw 0 data.length ≤ (data.length - 31) / 31 + 1 := by
        rw [← hcut]
        exact refused_le
      rw [hcut, accepted_ok hbound, ← List.length_drop, ← hcount]
  · rw [stamp, answers, if_neg hlast, frame_tail, receive_finish, finish_response]
    simp [hsame.room, stamp, answers]

end KbReg.Protocol
