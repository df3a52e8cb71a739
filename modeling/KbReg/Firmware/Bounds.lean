import KbReg.Firmware.Staging

namespace KbReg.Firmware

def Access.Inside (fw : Build) : Access → Prop
  | .byte index => index < fw.bufferMax
  | .block text => 0 ∈ text

instance (fw : Build) (a : Access) : Decidable (a.Inside fw) := by
  cases a with
  | byte index => exact inferInstanceAs (Decidable (index < fw.bufferMax))
  | block text => exact inferInstanceAs (Decidable (0 ∈ text))

def InBounds (fw : Build) (kb : Keyboard) : Prop := ∀ a ∈ kb.log, a.Inside fw

inductive Reachable (fw : Build) : Keyboard → Prop
  | powerUp (memory : ℕ → UInt8) : Reachable fw (powerUp fw memory)
  | report {kb : Keyboard} (h : Reachable fw kb) {data : List UInt8} (hlen : data.length = 32) :
      Reachable fw (rawHidReceive fw kb data).1
  | key {kb : Keyboard} (h : Reachable fw kb) (e : KeyEvent) :
      Reachable fw (processRecordUser fw kb e).1

variable {fw : Build} {kb : Keyboard}

lemma inBounds_append {log : List Access} (h : ∀ a ∈ log, a.Inside fw) :
    InBounds fw { kb with log := kb.log ++ log } ↔ InBounds fw kb := by
  simp only [InBounds, List.mem_append, or_imp, forall_and]
  exact and_iff_left h

lemma push_inBounds (h : kb.kbRegisterBufferOffset < fw.bufferMax) (x : UInt8) :
    InBounds fw (kb.push x) ↔ InBounds fw kb := by
  apply inBounds_append
  simpa [Access.Inside] using h

lemma clear_inBounds : InBounds fw (kb.clearBuffer fw) ↔ InBounds fw kb := by
  apply inBounds_append
  intro a ha
  obtain ⟨i, hi, rfl⟩ := List.mem_map.mp ha
  exact List.mem_range.mp hi

lemma setLoop_inBounds (xs : List UInt8)
    (hfit : kb.kbRegisterBufferOffset + xs.length ≤ fw.bufferMax) :
    InBounds fw (setLoop kb xs) ↔ InBounds fw kb := by
  induction xs generalizing kb with
  | nil => rfl
  | cons x xs ih =>
    simp only [List.length_cons] at hfit
    rw [setLoop]
    split_ifs with hx
    · rfl
    · have hroom : (kb.push x).kbRegisterBufferOffset + xs.length ≤ fw.bufferMax := by
        simp only [Keyboard.push]
        omega
      rw [ih hroom, push_inBounds (by omega)]

lemma appendLoop_inBounds (xs : List UInt8) :
    InBounds fw (appendLoop fw kb xs).1 ↔ InBounds fw kb := by
  induction xs generalizing kb with
  | nil => rfl
  | cons x xs ih =>
    rw [appendLoop]
    split_ifs with hlt hx
    · rfl
    · rw [ih, push_inBounds hlt]
    · rfl

lemma receive_set_inBounds {payload : List UInt8} (h : payload.length ≤ 31) :
    InBounds fw (setLoop (kb.clearBuffer fw) payload) ↔ InBounds fw kb := by
  have hfits := fw.report_fits
  rw [setLoop_inBounds payload (by simp only [Keyboard.clearBuffer]; omega), clear_inBounds]

/-- The copy of F reads one byte more than the text has, and the guard of A lets a text fill the buffer
to its end. -/
theorem finish_inBounds {text : List UInt8} (h : Holds fw kb text) :
    InBounds fw (finish fw kb).1 ↔ InBounds fw kb ∧ (Room fw kb → text.length < fw.bufferMax) := by
  by_cases hr : Room fw kb
  · obtain ⟨n, hn⟩ := finish_room hr
    rw [hn]
    simp only [hr, forall_const]
    constructor
    · intro hin
      refine ⟨fun a ha => hin a ?_, ?_⟩
      · simp [Keyboard.logCopy, ha]
      · have hlast := hin (.byte text.length) (by simp [Keyboard.logCopy, h.offset])
        exact hlast
    · rintro ⟨hin, hlt⟩ a ha
      simp only [Keyboard.logCopy, List.append_assoc, List.mem_append, List.mem_singleton] at ha
      rcases ha with ha | ha | rfl
      · exact hin a ha
      · obtain ⟨i, hi, rfl⟩ := List.mem_map.mp ha
        have hle : i < text.length + 1 := by simpa [h.offset] using hi
        change i < fw.bufferMax
        omega
      · change 0 ∈ kb.copied
        rw [copied_of_holds h hlt]
        simp
  · obtain ⟨n, hn⟩ := finish_no_room hr
    rw [hn]
    simp only [hr, false_imp_iff, and_true]
    rfl

lemma receive_holds {text : List UInt8} (h : Holds fw kb text) {data : List UInt8}
    (hlen : data.length = 32) : ∃ text', Holds fw (rawHidReceive fw kb data).1 text' := by
  simp only [rawHidReceive]
  split_ifs
  · exact ⟨text, h.offset, h.fits, h.cells⟩
  · exact ⟨_, receive_set_holds fw kb data.tail (by simp [hlen])⟩
  · exact ⟨_, appendLoop_holds h data.tail⟩
  · exact ⟨_, finish_holds h⟩
  · exact ⟨_, h⟩

lemma key_holds {text : List UInt8} (h : Holds fw kb text) (e : KeyEvent) :
    Holds fw (processRecordUser fw kb e).1 text := by
  simp only [processRecordUser]
  split_ifs
  · exact ⟨h.offset, h.fits, h.cells⟩
  · exact h
  · exact ⟨h.offset, h.fits, h.cells⟩
  · split
    · exact h
    · exact h
  · exact h

theorem Reachable.holds (h : Reachable fw kb) : Holds fw kb kb.pending := by
  suffices hex : ∃ text, Holds fw kb text by
    obtain ⟨text, ht⟩ := hex
    rwa [pending_of_holds ht]
  induction h with
  | powerUp memory => exact ⟨[], rfl, Nat.zero_le _, fun i hi => by simp [Firmware.powerUp, hi]⟩
  | report h hlen ih => exact receive_holds ih.choose_spec hlen
  | key h e ih => exact ⟨_, key_holds ih.choose_spec e⟩

end KbReg.Firmware
