import KbReg.Firmware.Receive
import Mathlib.Data.List.GetD
import Mathlib.Data.List.TakeDrop

namespace KbReg.Firmware

open KbReg

variable (fw : Build) (kb : Keyboard)

def Keyboard.stored (c : UInt16) : Option (List UInt8) := (kb.getRegister c).map Register.data

def untilNul (xs : List UInt8) : List UInt8 := xs.takeWhile (· ≠ 0)

structure Holds (text : List UInt8) : Prop where
  offset : kb.kbRegisterBufferOffset = text.length
  fits : text.length ≤ fw.bufferMax
  cells : ∀ i < fw.bufferMax, kb.kbRegisterBuffer i = text.getD i 0

lemma untilNul_cons_zero (xs : List UInt8) : untilNul (0 :: xs) = [] := by simp [untilNul]

lemma untilNul_cons {x : UInt8} (h : x ≠ 0) (xs : List UInt8) :
    untilNul (x :: xs) = x :: untilNul xs := by simp [untilNul, h]

lemma untilNul_append_zero {xs ys : List UInt8} (h : 0 ∉ xs) (hy : ys.headD 0 = 0) :
    untilNul (xs ++ ys) = xs := by
  induction xs with
  | nil =>
    cases ys with
    | nil => rfl
    | cons y ys => simp_all [untilNul]
  | cons x xs ih =>
    have hx : x ≠ 0 := fun he => h (by simp [he])
    rw [List.cons_append, untilNul_cons hx, ih fun hm => h (List.mem_cons_of_mem _ hm)]

lemma holds_clear : Holds fw (kb.clearBuffer fw) [] :=
  ⟨rfl, Nat.zero_le _, fun i hi => by simp [Keyboard.clearBuffer, hi]⟩

variable {fw kb}

lemma Holds.push {text : List UInt8} (h : Holds fw kb text) (hlt : text.length < fw.bufferMax)
    (x : UInt8) : Holds fw (kb.push x) (text ++ [x]) := by
  refine ⟨by simp [Keyboard.push, h.offset], by simp; omega, ?_⟩
  intro i hi
  by_cases he : i = text.length
  · subst he
    simp [Keyboard.push, h.offset]
  · have hc := h.cells i hi
    rw [List.getD_eq_getElem?_getD] at hc ⊢
    rcases Nat.lt_or_gt_of_ne he with hl | hg
    · simpa [Keyboard.push, h.offset, he, List.getElem?_append_left hl] using hc
    · have hn : (text ++ [x])[i]? = none := List.getElem?_eq_none (by simp; omega)
      have hm : text[i]? = none := List.getElem?_eq_none (by omega)
      simpa [Keyboard.push, h.offset, he, hn, hm] using hc

structure Same (kb kb' : Keyboard) : Prop where
  registers : kb'.registerHead = kb.registerHead
  next : kb'.kbRegisterNextKeycode = kb.kbRegisterNextKeycode
  mallocs : kb'.mallocs = kb.mallocs

lemma Same.trans {a b c : Keyboard} (h : Same a b) (k : Same b c) : Same a c :=
  ⟨k.registers.trans h.registers, k.next.trans h.next, k.mallocs.trans h.mallocs⟩

lemma Same.current (fw : Build) {kb' : Keyboard} (h : Same kb kb') : kb'.current fw = kb.current fw := by
  simp [Keyboard.current, h.next]

lemma Same.stored {kb' : Keyboard} (h : Same kb kb') : kb'.stored = kb.stored := by
  funext c
  simp [Keyboard.stored, Keyboard.getRegister, h.registers]

lemma setLoop_same (kb : Keyboard) (xs : List UInt8) : Same kb (setLoop kb xs) := by
  induction xs generalizing kb with
  | nil => exact ⟨rfl, rfl, rfl⟩
  | cons x xs ih =>
    rw [setLoop]
    split_ifs
    · exact ⟨rfl, rfl, rfl⟩
    · exact ⟨(ih _).registers, (ih _).next, (ih _).mallocs⟩

lemma appendLoop_same (kb : Keyboard) (xs : List UInt8) : Same kb (appendLoop fw kb xs).1 := by
  induction xs generalizing kb with
  | nil => exact ⟨rfl, rfl, rfl⟩
  | cons x xs ih =>
    rw [appendLoop]
    split_ifs
    · exact ⟨rfl, rfl, rfl⟩
    · exact ⟨(ih _).registers, (ih _).next, (ih _).mallocs⟩
    · exact ⟨rfl, rfl, rfl⟩

lemma setLoop_holds {text : List UInt8} (h : Holds fw kb text) (xs : List UInt8)
    (hfit : text.length + xs.length ≤ fw.bufferMax) :
    Holds fw (setLoop kb xs) (text ++ untilNul xs) := by
  induction xs generalizing kb text with
  | nil => simpa [setLoop, untilNul] using h
  | cons x xs ih =>
    simp only [List.length_cons] at hfit
    by_cases hx : x = 0
    · simpa [setLoop, hx, untilNul_cons_zero] using h
    · have hh := ih (h.push (by omega) x) (by simp; omega)
      simpa [setLoop, hx, untilNul_cons hx] using hh

lemma appendLoop_holds {text : List UInt8} (h : Holds fw kb text) (xs : List UInt8) :
    Holds fw (appendLoop fw kb xs).1 ((text ++ untilNul xs).take fw.bufferMax) := by
  induction xs generalizing kb text with
  | nil => simpa [appendLoop, untilNul, List.take_of_length_le h.fits] using h
  | cons x xs ih =>
    by_cases hlt : text.length < fw.bufferMax
    · by_cases hx : x = 0
      · simpa [appendLoop, h.offset, hlt, hx, untilNul_cons_zero,
          List.take_of_length_le h.fits] using h
      · simpa [appendLoop, h.offset, hlt, hx, untilNul_cons hx] using ih (h.push hlt x)
    · have he : text.length = fw.bufferMax := Nat.le_antisymm h.fits (Nat.le_of_not_lt hlt)
      simpa [appendLoop, h.offset, hlt, ← he] using h

lemma appendLoop_response (kb : Keyboard) (xs : List UInt8) :
    (appendLoop fw kb xs).2 = .ok ∨ (appendLoop fw kb xs).2 = .overflow := by
  induction xs generalizing kb with
  | nil => exact Or.inl rfl
  | cons x xs ih =>
    rw [appendLoop]
    split_ifs
    · exact Or.inl rfl
    · exact ih _
    · exact Or.inr rfl

/-- The check for room comes before the check for the terminator, so a text that ends exactly at the
end of the buffer is refused unless the report is full. -/
lemma appendLoop_ok_iff {text : List UInt8} (h : Holds fw kb text) (xs : List UInt8) :
    (appendLoop fw kb xs).2 = .ok ↔ text.length + (untilNul xs).length < fw.bufferMax ∨
      untilNul xs = xs ∧ text.length + xs.length ≤ fw.bufferMax := by
  induction xs generalizing kb text with
  | nil => simp [appendLoop, untilNul, h.fits]
  | cons x xs ih =>
    by_cases hlt : text.length < fw.bufferMax
    · by_cases hx : x = 0
      · simp [appendLoop, h.offset, hlt, hx, untilNul_cons_zero]
      · have hh := ih (h.push hlt x)
        simp only [List.length_append, List.length_singleton, Nat.add_assoc, Nat.add_comm 1] at hh
        simpa [appendLoop, h.offset, hlt, hx, untilNul_cons hx] using hh
    · simp only [appendLoop, h.offset, hlt, if_false]
      by_cases hx : x = 0
      · simp [untilNul_cons_zero, hx]
        omega
      · simp [untilNul_cons hx]
        omega

def Keyboard.pending (kb : Keyboard) : List UInt8 :=
  (List.range kb.kbRegisterBufferOffset).map kb.kbRegisterBuffer

lemma pending_of_holds {text : List UInt8} (h : Holds fw kb text) : kb.pending = text := by
  apply List.ext_getElem
  · simp [Keyboard.pending, h.offset]
  · intro i hi hi'
    simp only [Keyboard.pending, List.getElem_map, List.getElem_range]
    rw [h.cells i (Nat.lt_of_lt_of_le hi' h.fits), List.getD_eq_getElem _ _ hi']

lemma copied_of_holds {text : List UInt8} (h : Holds fw kb text) (hlt : text.length < fw.bufferMax) :
    kb.copied = text ++ [0] := by
  have hlast : kb.kbRegisterBuffer kb.kbRegisterBufferOffset = 0 := by
    rw [h.offset, h.cells _ hlt]
    simp
  rw [Keyboard.copied, List.range_succ, List.map_append, List.map_singleton, hlast]
  exact congrArg (· ++ [0]) (pending_of_holds h)

def RoomFor (fw : Build) (kb : Keyboard) (c : UInt16) : Prop :=
  fw.malloc kb.mallocs = true ∧ (kb.getRegister c = none → fw.malloc (kb.mallocs + 1) = true)

instance (c : UInt16) : Decidable (RoomFor fw kb c) :=
  inferInstanceAs (Decidable (_ ∧ (_ → _)))

abbrev Room (fw : Build) (kb : Keyboard) : Prop := RoomFor fw kb (kb.current fw)

lemma Same.room {a b : Keyboard} (h : Same a b) : Room fw b ↔ Room fw a := by
  simp [Room, RoomFor, Keyboard.getRegister, h.registers, h.mallocs, h.current fw]

lemma getRegister_mallocs (n : ℕ) (c : UInt16) :
    Keyboard.getRegister { kb with mallocs := n } c = kb.getRegister c := rfl

lemma current_mallocs (n : ℕ) : Keyboard.current fw { kb with mallocs := n } = kb.current fw := rfl

lemma finish_room (h : Room fw kb) : ∃ n, finish fw kb =
    (Keyboard.logCopy { kb with
      registerHead := Keyed.put Register.keycode ⟨kb.current fw, kb.copied⟩ kb.registerHead
      mallocs := n }, .ok) := by
  obtain ⟨htext, hnode⟩ := h
  cases hg : kb.getRegister (kb.current fw) with
  | none =>
    have hs : ¬ (Keyed.find Register.keycode (kb.current fw) kb.registerHead).isSome := by
      simpa [Keyboard.getRegister] using hg
    refine ⟨kb.mallocs + 2, ?_⟩
    simp only [finish, Keyboard.malloc, htext, if_true, Keyed.put, hs, getRegister_mallocs, current_mallocs,
      hg, initNewRegister, hnode hg]
    rfl
  | some node =>
    have hs : (Keyed.find Register.keycode (kb.current fw) kb.registerHead).isSome := by
      simpa [Keyboard.getRegister] using Option.isSome_of_eq_some hg
    refine ⟨kb.mallocs + 1, ?_⟩
    simp only [finish, Keyboard.malloc, htext, if_true, Keyed.put, hs, getRegister_mallocs, current_mallocs,
      hg]
    rfl

lemma finish_no_room (h : ¬ Room fw kb) :
    ∃ n, finish fw kb = ({ kb with mallocs := n }, .outOfMemory) := by
  by_cases htext : fw.malloc kb.mallocs = true
  · have hnode : kb.getRegister (kb.current fw) = none ∧ ¬ fw.malloc (kb.mallocs + 1) = true := by
      simpa [Room, RoomFor, htext] using h
    refine ⟨kb.mallocs + 2, ?_⟩
    simp [finish, Keyboard.malloc, htext, getRegister_mallocs, current_mallocs, hnode.1, initNewRegister,
      hnode.2]
  · refine ⟨kb.mallocs + 1, ?_⟩
    simp [finish, Keyboard.malloc, htext]

lemma finish_response : (finish fw kb).2 = if Room fw kb then .ok else .outOfMemory := by
  by_cases h : Room fw kb
  · obtain ⟨n, hn⟩ := finish_room h
    simp [hn, h]
  · obtain ⟨n, hn⟩ := finish_no_room h
    simp [hn, h]

theorem finish_stored (c : UInt16) : (finish fw kb).1.stored c =
    if Room fw kb ∧ c = kb.current fw then some kb.copied else kb.stored c := by
  by_cases h : Room fw kb
  · obtain ⟨n, hn⟩ := finish_room h
    simp only [hn, h, true_and, Keyboard.stored, Keyboard.getRegister, Keyboard.logCopy,
      Keyed.find_put]
    split_ifs <;> rfl
  · obtain ⟨n, hn⟩ := finish_no_room h
    simp only [hn, h, false_and, if_false]
    rfl

lemma finish_keeps (fw : Build) (kb : Keyboard) : (finish fw kb).1.kbRegisterBuffer = kb.kbRegisterBuffer ∧
    (finish fw kb).1.kbRegisterBufferOffset = kb.kbRegisterBufferOffset ∧
    (finish fw kb).1.kbRegisterNextKeycode = kb.kbRegisterNextKeycode := by
  by_cases h : Room fw kb
  · obtain ⟨n, hn⟩ := finish_room h
    simp [hn, Keyboard.logCopy]
  · obtain ⟨n, hn⟩ := finish_no_room h
    simp [hn]

lemma finish_holds {text : List UInt8} (h : Holds fw kb text) : Holds fw (finish fw kb).1 text := by
  obtain ⟨hb, ho, _⟩ := finish_keeps fw kb
  exact ⟨ho.trans h.offset, h.fits, fun i hi => by rw [hb, h.cells i hi]⟩

@[simp] lemma finish_current : (finish fw kb).1.current fw = kb.current fw := by
  simp [Keyboard.current, (finish_keeps fw kb).2.2]

lemma finish_unique (h : (kb.registerHead.map Register.keycode).Nodup) :
    ((finish fw kb).1.registerHead.map Register.keycode).Nodup := by
  by_cases hr : Room fw kb
  · obtain ⟨n, hn⟩ := finish_room hr
    simpa [hn, Keyboard.logCopy] using Keyed.put_nodup Register.keycode _ h
  · obtain ⟨n, hn⟩ := finish_no_room hr
    simpa [hn] using h

section Messages

variable (fw kb) (payload : List UInt8)

@[simp] lemma receive_key : rawHidReceive fw kb (msgKey :: payload) =
    ({ kb with kbRegisterNextKeycode := fw.asciiToKeycodeLut (payload.headD 0) }, some .ok) := by
  simp [rawHidReceive]

@[simp] lemma receive_set : rawHidReceive fw kb (msgSet :: payload) =
    (setLoop (kb.clearBuffer fw) payload, some .ok) := by
  have h : msgSet ≠ msgKey := by decide
  simp [rawHidReceive, h]

@[simp] lemma receive_append : rawHidReceive fw kb (msgAppend :: payload) =
    ((appendLoop fw kb payload).1, some (appendLoop fw kb payload).2) := by
  have h : msgAppend ≠ msgKey ∧ msgAppend ≠ msgSet := by decide
  simp [rawHidReceive, h]

@[simp] lemma receive_finish : rawHidReceive fw kb (msgFinish :: payload) =
    ((finish fw kb).1, some (finish fw kb).2) := by
  have h : msgFinish ≠ msgKey ∧ msgFinish ≠ msgSet ∧ msgFinish ≠ msgAppend := by decide
  simp [rawHidReceive, h]

end Messages

lemma receive_set_same (payload : List UInt8) :
    Same kb (setLoop (kb.clearBuffer fw) payload) :=
  have h := setLoop_same (kb.clearBuffer fw) payload
  ⟨h.registers, h.next, h.mallocs⟩

lemma receive_set_holds (fw : Build) (kb : Keyboard) (payload : List UInt8) (h : payload.length ≤ 31) :
    Holds fw (setLoop (kb.clearBuffer fw) payload) (untilNul payload) := by
  have hh := setLoop_holds (holds_clear fw kb) payload (by
    have := fw.report_fits
    simp
    omega)
  simpa using hh

section Frame

variable (fw kb) {data : List UInt8}

lemma receive_stored (h : data.headD 0 ≠ msgFinish) :
    (rawHidReceive fw kb data).1.stored = kb.stored := by
  simp only [rawHidReceive, h, if_false]
  split_ifs
  · rfl
  · exact (receive_set_same _).stored
  · exact (appendLoop_same _ _).stored
  · rfl

lemma receive_current (h : data.headD 0 ≠ msgKey) :
    (rawHidReceive fw kb data).1.current fw = kb.current fw := by
  simp only [rawHidReceive, h, if_false]
  split_ifs
  · exact (receive_set_same _).current fw
  · exact (appendLoop_same _ _).current fw
  · exact finish_current
  · rfl

lemma receive_key_current (h : data.headD 0 = msgKey) : (rawHidReceive fw kb data).1.current fw =
    fw.widen (fw.asciiToKeycodeLut (data.tail.headD 0)) := by
  simp only [rawHidReceive, h, if_true]
  rfl

lemma receive_stored_ne (data : List UInt8) {c : UInt16} (h : c ≠ kb.current fw) :
    (rawHidReceive fw kb data).1.stored c = kb.stored c := by
  by_cases hf : data.headD 0 = msgFinish
  · obtain ⟨payload, rfl⟩ : ∃ payload, data = msgFinish :: payload := by
      cases data with
      | nil => exact absurd hf (by decide)
      | cons x xs => exact ⟨xs, by simpa using hf⟩
    simp [finish_stored, h]
  · rw [receive_stored fw kb hf]

end Frame

end KbReg.Firmware
