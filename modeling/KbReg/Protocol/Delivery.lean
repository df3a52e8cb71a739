import KbReg.Firmware.Staging
import KbReg.Host.Transfer

namespace KbReg.Protocol

open KbReg.Firmware KbReg.Host KbReg.Pieces

section Delivery

variable (fw : Build)

/-- A report whose write failed does not arrive; the others arrive without their report id. -/
def arrive (kb : Keyboard) (w : Written) : Keyboard :=
  if w.res < 0 then kb else (rawHidReceive fw kb w.report.tail).1

def deliver (kb : Keyboard) (ws : List Written) : Keyboard := ws.foldl (arrive fw) kb

lemma deliver_append (kb : Keyboard) (xs ys : List Written) :
    deliver fw kb (xs ++ ys) = deliver fw (deliver fw kb xs) ys := List.foldl_append

lemma deliver_cons (kb : Keyboard) (w : Written) (ws : List Written) :
    deliver fw kb (w :: ws) = deliver fw (arrive fw kb w) ws := rfl

end Delivery

variable {fw : Build} {env : Env}

def arrived {α : Type} (env : Env) (n : ℕ) : List α → List α
  | [] => []
  | x :: xs => if env.write n < 0 then arrived env (n + 1) xs else x :: arrived env (n + 1) xs

lemma arrived_all {α : Type} {n : ℕ} {xs : List α}
    (h : ∀ i < xs.length, 0 ≤ env.write (n + i)) : arrived env n xs = xs := by
  induction xs generalizing n with
  | nil => rfl
  | cons x xs ih =>
    have h0 : ¬ env.write n < 0 := by simpa using h 0 (by simp)
    have hs := ih (n := n + 1) fun i hi => by
      have hh := h (i + 1) (by simpa using hi)
      rwa [show n + (i + 1) = n + 1 + i by omega] at hh
    simp [arrived, h0, hs]

def bodyReports (data : Bytes) : List Bytes :=
  frame msgSet (data.take 31) :: (pieces 31 data).tail.map (frame msgAppend)

lemma storeReports_eq (data : Bytes) : storeReports data = bodyReports data ++ [frame msgFinish []] :=
  rfl

lemma bodyReports_length (data : Bytes) : (bodyReports data).length = data.length / 31 + 1 := by
  simp [bodyReports]

def staged (fw : Build) (env : Env) (n : ℕ) (left data : Bytes) : Bytes :=
  ((if env.write n < 0 then left else data.take 31) ++
    (arrived env (n + 1) (pieces 31 data).tail).flatten).take fw.bufferMax

lemma take_append_tail_flatten (data : Bytes) :
    data.take 31 ++ (pieces 31 data).tail.flatten = data := by
  have hf := pieces_flatten (w := 31) (by omega) data
  rwa [pieces_head, List.flatten_cons] at hf

lemma staged_all {n : ℕ} (left data : Bytes)
    (h : ∀ i < data.length / 31 + 1, 0 ≤ env.write (n + i)) :
    staged fw env n left data = data.take fw.bufferMax := by
  have h0 : ¬ env.write n < 0 := by simpa using h 0 (by omega)
  have ha : arrived env (n + 1) (pieces 31 data).tail = (pieces 31 data).tail := by
    apply arrived_all
    intro i hi
    have hh := h (i + 1) (by simp at hi; omega)
    rwa [show n + (i + 1) = n + 1 + i by omega] at hh
  simp [staged, h0, ha, take_append_tail_flatten]

lemma frame_tail (id : UInt8) (payload : Bytes) : (frame id payload).tail =
    id :: (payload ++ List.replicate (31 - payload.length) 0) := rfl

lemma untilNul_zeros (payload : Bytes) (n : ℕ) :
    untilNul (payload ++ List.replicate n 0) = untilNul payload := by
  induction payload with
  | nil => cases n <;> simp [untilNul, List.replicate_succ]
  | cons x xs ih =>
    by_cases hx : x = 0
    · rw [List.cons_append, hx, untilNul_cons_zero, untilNul_cons_zero]
    · rw [List.cons_append, untilNul_cons hx, untilNul_cons hx, ih]

lemma untilNul_self {payload : Bytes} (h : 0 ∉ payload) : untilNul payload = payload := by
  have hh : untilNul (payload ++ []) = payload := untilNul_append_zero h rfl
  rwa [List.append_nil] at hh

lemma untilNul_padded {payload : Bytes} (h : 0 ∉ payload) :
    untilNul (payload ++ List.replicate (31 - payload.length) 0) = payload := by
  rw [untilNul_zeros, untilNul_self h]

lemma frame_set_untilNul (fw : Build) (kb : Keyboard) {payload : Bytes} (hp : payload.length ≤ 31) :
    Holds fw (rawHidReceive fw kb (frame msgSet payload).tail).1 (untilNul payload) := by
  have hh := receive_set_holds fw kb (payload ++ List.replicate (31 - payload.length) 0)
    (by simp; omega)
  rw [untilNul_zeros] at hh
  rw [frame_tail, receive_set]
  exact hh

lemma frame_append_untilNul {kb : Keyboard} {left : Bytes} (h : Holds fw kb left) (payload : Bytes) :
    Holds fw (rawHidReceive fw kb (frame msgAppend payload).tail).1
      ((left ++ untilNul payload).take fw.bufferMax) := by
  have hh := appendLoop_holds h (payload ++ List.replicate (31 - payload.length) 0)
  rw [untilNul_zeros] at hh
  rw [frame_tail, receive_append]
  exact hh

lemma frame_set_holds (fw : Build) (kb : Keyboard) {payload : Bytes} (hd : 0 ∉ payload)
    (hp : payload.length ≤ 31) :
    Holds fw (rawHidReceive fw kb (frame msgSet payload).tail).1 payload := by
  have hh := frame_set_untilNul fw kb hp
  rwa [untilNul_self hd] at hh

lemma frame_append_holds {kb : Keyboard} {left payload : Bytes} (h : Holds fw kb left)
    (hd : 0 ∉ payload) : Holds fw (rawHidReceive fw kb (frame msgAppend payload).tail).1
      ((left ++ payload).take fw.bufferMax) := by
  have hh := frame_append_untilNul h payload
  rwa [untilNul_self hd] at hh

lemma take_take_append {α : Type} (n : ℕ) (xs ys : List α) :
    (xs.take n ++ ys).take n = (xs ++ ys).take n := by
  rcases Nat.le_total n xs.length with h | h
  · simp [List.take_append, Nat.sub_eq_zero_of_le h, Nat.min_eq_left h]
  · rw [List.take_of_length_le h]

lemma deliver_appends_same (kb : Keyboard) (n : ℕ) (ps : List Bytes) :
    Same kb (deliver fw kb (stamp env n (ps.map (frame msgAppend)))) := by
  induction ps generalizing kb n with
  | nil => exact ⟨rfl, rfl, rfl⟩
  | cons p ps ih =>
    simp only [List.map_cons, stamp, deliver_cons, arrive, frame_tail, receive_append]
    split_ifs
    · exact ih _ _
    · exact (appendLoop_same kb _).trans (ih _ _)

lemma deliver_appends_untilNul {kb : Keyboard} {left : Bytes} (h : Holds fw kb left) (n : ℕ)
    (ps : List Bytes) :
    Holds fw (deliver fw kb (stamp env n (ps.map (frame msgAppend))))
      ((left ++ ((arrived env n ps).map untilNul).flatten).take fw.bufferMax) := by
  induction ps generalizing kb n left with
  | nil => simpa [deliver, stamp, arrived, List.take_of_length_le h.fits] using h
  | cons p ps ih =>
    simp only [List.map_cons, stamp, deliver_cons, arrive, arrived]
    split_ifs
    · exact ih h _
    · have hh := ih (frame_append_untilNul h p) (n + 1)
      simpa only [take_take_append, List.append_assoc, List.map_cons, List.flatten_cons] using hh

lemma arrived_subset {α : Type} {n : ℕ} {xs : List α} {x : α} (h : x ∈ arrived env n xs) : x ∈ xs := by
  induction xs generalizing n with
  | nil => cases h
  | cons y ys ih =>
    simp only [arrived] at h
    split_ifs at h
    · exact List.mem_cons_of_mem _ (ih h)
    · rcases List.mem_cons.mp h with rfl | h
      · exact List.mem_cons_self
      · exact List.mem_cons_of_mem _ (ih h)

lemma deliver_appends_holds {kb : Keyboard} {left : Bytes} (h : Holds fw kb left) (n : ℕ)
    {ps : List Bytes} (hp : ∀ p ∈ ps, 0 ∉ p) :
    Holds fw (deliver fw kb (stamp env n (ps.map (frame msgAppend))))
      ((left ++ (arrived env n ps).flatten).take fw.bufferMax) := by
  have hh : Holds fw (deliver fw kb (stamp env n (ps.map (frame msgAppend)))) _ :=
    deliver_appends_untilNul h n ps
  have hmap : (arrived env n ps).map untilNul = arrived env n ps := by
    conv_rhs => rw [← List.map_id (arrived env n ps)]
    apply List.map_congr_left
    intro p hm
    exact untilNul_self (hp p (arrived_subset hm))
  rwa [hmap] at hh

theorem deliver_body_same (fw : Build) (env : Env) (kb : Keyboard) (n : ℕ) (data : Bytes) :
    Same kb (deliver fw kb (stamp env n (bodyReports data))) := by
  simp only [bodyReports, stamp, deliver_cons, arrive, frame_tail, receive_set]
  split_ifs
  · exact deliver_appends_same _ _ _
  · exact (receive_set_same _).trans (deliver_appends_same _ _ _)

theorem deliver_body_holds (fw : Build) (env : Env) (kb : Keyboard) (n : ℕ) (left : Bytes)
    {data : Bytes} (hd : 0 ∉ data) (h : 0 ≤ env.write n ∨ Holds fw kb left) :
    Holds fw (deliver fw kb (stamp env n (bodyReports data))) (staged fw env n left data) := by
  have hp : ∀ p ∈ (pieces 31 data).tail, 0 ∉ p := fun p hp hm =>
    hd (mem_of_mem_piece (List.mem_of_mem_tail hp) hm)
  have htake : 0 ∉ data.take 31 := fun hm => hd (List.mem_of_mem_take hm)
  simp only [bodyReports, stamp, deliver_cons, arrive, staged]
  split_ifs with hlost
  · exact deliver_appends_holds (h.resolve_left (not_le.mpr hlost)) _ hp
  · exact deliver_appends_holds (frame_set_holds fw kb htake (by simp)) _ hp

lemma deliver_store (kb : Keyboard) (n : ℕ) (data : Bytes) :
    deliver fw kb (stamp env n (storeReports data)) =
      if env.write (n + (data.length / 31 + 1)) < 0 then
        deliver fw kb (stamp env n (bodyReports data))
      else (finish fw (deliver fw kb (stamp env n (bodyReports data)))).1 := by
  rw [storeReports_eq, stamp_append, deliver_append, bodyReports_length]
  simp [stamp, deliver, arrive, frame_tail]

theorem stored_after_store (kb : Keyboard) (n : ℕ) (data : Bytes) (c : UInt16) :
    (deliver fw kb (stamp env n (storeReports data))).stored c =
      if 0 ≤ env.write (n + (data.length / 31 + 1)) ∧ Room fw kb ∧ c = kb.current fw then
        some (deliver fw kb (stamp env n (bodyReports data))).copied
      else kb.stored c := by
  have hsame := deliver_body_same fw env kb n data
  rw [deliver_store]
  by_cases hf : env.write (n + (data.length / 31 + 1)) < 0
  · simp [hf, hsame.stored, not_le.mpr hf]
  · rw [if_neg hf, finish_stored]
    simp only [hsame.room, hsame.current fw, hsame.stored, not_lt.mp hf, true_and]

lemma current_after_store (kb : Keyboard) (n : ℕ) (data : Bytes) :
    (deliver fw kb (stamp env n (storeReports data))).current fw = kb.current fw := by
  have hsame := deliver_body_same fw env kb n data
  rw [deliver_store]
  split_ifs
  · exact hsame.current fw
  · rw [finish_current, hsame.current fw]

lemma deliver_key (kb : Keyboard) (n : ℕ) (k : UInt8) :
    deliver fw kb (stamp env n [frame msgKey [k]]) =
      if env.write n < 0 then kb
      else { kb with kbRegisterNextKeycode := fw.asciiToKeycodeLut k } := by
  simp [stamp, deliver, arrive, frame_tail]

end KbReg.Protocol
