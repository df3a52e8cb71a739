import KbReg.Firmware.Ownership
import Mathlib.Data.List.MinMax

/-! Whole runs of the firmware on its heap, from power-up. -/

namespace KbReg.Firmware

open KbReg Transcripts

inductive Input
  | report (data : List UInt8) (length_eq : data.length = 32)
  | key (event : KeyEvent)

inductive Output
  | response (response : Option Response)
  | typed (played : Option Played) (handled : Option Bool)
  deriving DecidableEq

section Machines

variable (fw : Build)

def Keyboard.next (kb : Keyboard) : Input → Keyboard × Output
  | .report data _ => ((rawHidReceive fw kb data).1, .response (rawHidReceive fw kb data).2)
  | .key e => ((processRecordUser fw kb e).1,
      .typed (processRecordUser fw kb e).2.1 (processRecordUser fw kb e).2.2)

def leaked (kb : Keyboard) : Input → ℕ
  | .report data _ => if data.headD 0 = msgFinish ∧ Leaks fw kb then 1 else 0
  | .key _ => 0

def tally (s : Keyboard × ℕ) (e : Input) : (Keyboard × ℕ) × Output :=
  (((s.1.next fw e).1, s.2 + leaked fw s.1 e), (s.1.next fw e).2)

def Overruns (kb : Keyboard) : Input → Prop
  | .report data _ =>
    data.headD 0 = msgFinish ∧ Room fw kb ∧ kb.kbRegisterBufferOffset = fw.bufferMax
  | .key _ => False

instance (kb : Keyboard) (e : Input) : Decidable (Overruns fw kb e) := by
  cases e with
  | report data h => exact inferInstanceAs (Decidable (_ ∧ _ ∧ _))
  | key e => exact inferInstanceAs (Decidable False)

def OverrunsIn : Keyboard → List Input → Prop
  | _, [] => False
  | kb, e :: es => Overruns fw kb e ∨ OverrunsIn (kb.next fw e).1 es

def losses : Keyboard → List Input → ℕ
  | _, [] => 0
  | kb, e :: es => leaked fw kb e + losses (kb.next fw e).1 es

variable {A : Type} [DecidableEq A] (mem : Allocator A) (size : ℕ)

def Chip.step (chip : Chip A) : Input → Option (Chip A × Output)
  | .report data _ => (chip.rawHidReceive fw mem size data).map fun r => (r.1, .response r.2)
  | .key e => (chip.processRecordUser fw e).map fun r => (r.1, .typed r.2.1 r.2.2)

/-- The chip stands for the keyboard: its list is the list of registers, and it has lost `n` texts. -/
structure Stands (chip : Chip A) (s : Keyboard × ℕ) : Prop where
  layout : ∃ slots lost, Layout chip slots lost ∧ chip.keyboard slots = s.1 ∧ lost.length = s.2
  terminated : ∀ r ∈ s.1.registerHead, 0 ∈ r.data
  buffer : ∃ text, Holds fw s.1 text

end Machines

variable {fw : Build} {kb : Keyboard}

section Log

lemma push_log (kb : Keyboard) (x : UInt8) : kb.log <+: (kb.push x).log := List.prefix_append _ _

lemma setLoop_log (kb : Keyboard) (xs : List UInt8) : kb.log <+: (setLoop kb xs).log := by
  induction xs generalizing kb with
  | nil => exact List.prefix_rfl
  | cons x xs ih =>
    rw [setLoop]
    split_ifs
    · exact List.prefix_rfl
    · exact (push_log kb x).trans (ih _)

lemma appendLoop_log (kb : Keyboard) (xs : List UInt8) : kb.log <+: (appendLoop fw kb xs).1.log := by
  induction xs generalizing kb with
  | nil => exact List.prefix_rfl
  | cons x xs ih =>
    rw [appendLoop]
    split_ifs
    · exact List.prefix_rfl
    · exact (push_log kb x).trans (ih _)
    · exact List.prefix_rfl

lemma finish_log (kb : Keyboard) : kb.log <+: (finish fw kb).1.log := by
  by_cases hr : Room fw kb
  · obtain ⟨n, hn⟩ := finish_room hr
    rw [hn]
    simp only [Keyboard.logCopy, List.append_assoc]
    exact List.prefix_append _ _
  · obtain ⟨n, hn⟩ := finish_no_room hr
    have hsame : (finish fw kb).1.log = kb.log := by rw [hn]
    exact hsame ▸ List.prefix_rfl

lemma next_log (kb : Keyboard) (e : Input) : kb.log <+: (kb.next fw e).1.log := by
  cases e with
  | report data hlen =>
    simp only [Keyboard.next, rawHidReceive]
    split_ifs
    · exact List.prefix_rfl
    · have hclear : kb.log <+: (kb.clearBuffer fw).log := List.prefix_append _ _
      exact hclear.trans (setLoop_log _ _)
    · exact appendLoop_log kb _
    · exact finish_log kb
    · exact List.prefix_rfl
  | key e =>
    simp only [Keyboard.next, processRecordUser]
    split_ifs
    · exact List.prefix_rfl
    · exact List.prefix_rfl
    · exact List.prefix_rfl
    · split <;> exact List.prefix_rfl
    · exact List.prefix_rfl

lemma inBounds_of_next {e : Input} (h : InBounds fw (kb.next fw e).1) : InBounds fw kb :=
  fun a ha => h a ((next_log kb e).subset ha)

end Log

section Frame

variable (l : List Register)

lemma setLoop_registers (kb : Keyboard) (xs : List UInt8) :
    setLoop { kb with registerHead := l } xs = { setLoop kb xs with registerHead := l } := by
  induction xs generalizing kb with
  | nil => rfl
  | cons x xs ih =>
    rw [setLoop, setLoop]
    split_ifs
    · rfl
    · exact ih (kb.push x)

lemma appendLoop_registers (kb : Keyboard) (xs : List UInt8) :
    appendLoop fw { kb with registerHead := l } xs =
      ({ (appendLoop fw kb xs).1 with registerHead := l }, (appendLoop fw kb xs).2) := by
  induction xs generalizing kb with
  | nil => rfl
  | cons x xs ih =>
    rw [appendLoop, appendLoop]
    split_ifs
    · rfl
    · exact ih (kb.push x)
    · rfl

variable (fw) in
lemma receive_registers (kb : Keyboard) {data : List UInt8} (h : data.headD 0 ≠ msgFinish) :
    rawHidReceive fw { kb with registerHead := l } data =
      ({ (rawHidReceive fw kb data).1 with registerHead := l }, (rawHidReceive fw kb data).2) := by
  simp only [rawHidReceive, h, if_false]
  split_ifs
  · rfl
  · rw [← setLoop_registers]
    rfl
  · rw [appendLoop_registers]
  · rfl

lemma current_rgui (kb : Keyboard) (b : Bool) (n : ℕ) :
    Keyboard.current fw { kb with rguiPressed := b, mallocs := n } = kb.current fw := rfl

lemma setLoop_rgui (kb : Keyboard) (b : Bool) (payload : List UInt8) :
    setLoop { kb with rguiPressed := b } payload = { setLoop kb payload with rguiPressed := b } := by
  induction payload generalizing kb with
  | nil => rfl
  | cons x xs ih =>
    rw [setLoop, setLoop]
    split_ifs
    · rfl
    · exact ih (kb.push x)

variable (fw) in
lemma appendLoop_rgui (kb : Keyboard) (b : Bool) (payload : List UInt8) :
    (appendLoop fw { kb with rguiPressed := b } payload).1 =
      { (appendLoop fw kb payload).1 with rguiPressed := b } := by
  induction payload generalizing kb with
  | nil => rfl
  | cons x xs ih =>
    rw [appendLoop, appendLoop]
    split_ifs
    · rfl
    · exact ih (kb.push x)
    · rfl

variable (fw) in
lemma finish_rgui (kb : Keyboard) (b : Bool) :
    (finish fw { kb with rguiPressed := b }).1 =
      { (finish fw kb).1 with rguiPressed := b } := by
  by_cases htext : fw.malloc kb.mallocs = true
  · cases hfind : Keyed.find Register.keycode (kb.current fw) kb.registerHead with
    | some node =>
      simp only [finish, Keyboard.malloc, htext, if_true, Keyboard.getRegister, current_rgui,
        hfind]
      rfl
    | none =>
      by_cases hnode : fw.malloc (kb.mallocs + 1) = true
      · simp only [finish, Keyboard.malloc, htext, if_true, Keyboard.getRegister,
          current_rgui, hfind, initNewRegister, hnode]
        rfl
      · simp [finish, Keyboard.malloc, htext, Keyboard.getRegister, current_rgui, hfind,
          initNewRegister, hnode]
  · simp [finish, Keyboard.malloc, htext]

variable (fw) in
lemma receive_rgui (kb : Keyboard) (b : Bool) (data : List UInt8) :
    (rawHidReceive fw { kb with rguiPressed := b } data).1 =
      { (rawHidReceive fw kb data).1 with rguiPressed := b } := by
  simp only [rawHidReceive]
  split_ifs
  · rfl
  · exact setLoop_rgui (kb.clearBuffer fw) b _
  · exact appendLoop_rgui fw kb b _
  · exact finish_rgui fw kb b
  · rfl

lemma receive_inBounds {data : List UInt8} (hlen : data.length = 32) (h : data.headD 0 ≠ msgFinish) :
    InBounds fw (rawHidReceive fw kb data).1 ↔ InBounds fw kb := by
  simp only [rawHidReceive, h, if_false]
  split_ifs
  · rfl
  · exact receive_set_inBounds (by simp [hlen])
  · exact appendLoop_inBounds data.tail
  · rfl

lemma key_inBounds (e : KeyEvent) :
    InBounds fw (processRecordUser fw kb e).1 ↔ InBounds fw kb := by
  simp only [processRecordUser]
  split_ifs
  · rfl
  · rfl
  · rfl
  · split <;> rfl
  · rfl

end Frame

section Steps

variable {A : Type} [DecidableEq A] {mem : Allocator A} {size : ℕ} {chip : Chip A} {s : Keyboard × ℕ}

lemma Layout.lookup {slots : List (Slot A)} {lost : List A} (h : Layout chip slots lost) {t : Slot A}
    (ht : t ∈ slots) : ∃ next, nodeAt chip.heap t.node = some ⟨t.register.keycode, some t.text, next⟩ ∧
      textAt chip.heap t.text = some t.register.data := by
  obtain ⟨pre, post, rfl⟩ := List.append_of_mem ht
  have hchain := h.chain
  rw [List.map_append, List.map_cons] at hchain
  obtain ⟨next, hcell, _⟩ := hchain.cell_eq
  exact ⟨next, nodeAt_of_cellAt hcell, h.holds t.content (List.mem_map_of_mem ht)⟩

lemma key_follows (h : Stands fw chip s) (e : KeyEvent) : ∃ chip',
    chip.processRecordUser fw e = some (chip', (processRecordUser fw s.1 e).2) ∧
      Stands fw chip' ((processRecordUser fw s.1 e).1, s.2) := by
  obtain ⟨kb, n⟩ := s
  obtain ⟨⟨slots, lost, hlayout, hkb, hlost⟩, hnul, text, hholds⟩ := id h
  obtain rfl : chip.keyboard slots = kb := hkb
  have hpressed : (chip.keyboard slots).rguiPressed = chip.globals.rguiPressed := rfl
  simp only [Chip.processRecordUser, processRecordUser, hpressed]
  split_ifs
  · exact ⟨_, rfl, ⟨slots, lost, hlayout, rfl, hlost⟩, hnul, text, hholds.offset, hholds.fits, hholds.cells⟩
  · exact ⟨chip, rfl, h⟩
  · exact ⟨_, rfl, ⟨slots, lost, hlayout, rfl, hlost⟩, hnul, text, hholds.offset, hholds.fits, hholds.cells⟩
  · rw [getRegister_eq hlayout, getRegister_keyboard]
    cases hc : slots.find? (fun t => t.register.keycode = e.keycode) with
    | none => exact ⟨chip, rfl, h⟩
    | some t =>
      have ht := List.mem_of_find?_eq_some hc
      obtain ⟨next, hnode, htext⟩ := hlayout.lookup ht
      have hzero : 0 ∈ t.register.data := hnul t.register (List.mem_map_of_mem ht)
      refine ⟨chip, ?_, h⟩
      simp only [Option.map_some, Option.bind_eq_bind, Option.bind_some, hnode, htext, Chip.sendString,
        hzero, if_true]
      rfl
  · exact ⟨chip, rfl, h⟩

variable (mem size) in
lemma receive_follows (h : Stands fw chip s) {data : List UInt8} (hlen : data.length = 32)
    (hf : data.headD 0 ≠ msgFinish) : ∃ chip',
    chip.rawHidReceive fw mem size data = some (chip', (rawHidReceive fw s.1 data).2) ∧
      Stands fw chip' ((rawHidReceive fw s.1 data).1, s.2) := by
  obtain ⟨kb, n⟩ := s
  obtain ⟨⟨slots, lost, hlayout, hkb, hlost⟩, hnul, text, hholds⟩ := id h
  obtain rfl : chip.keyboard slots = kb := hkb
  have hframe := receive_registers fw (slots.map Slot.register) chip.globals hf
  change rawHidReceive fw (chip.keyboard slots) data = _ at hframe
  obtain ⟨text', hafter⟩ := receive_holds hholds hlen
  rw [hframe] at hafter ⊢
  refine ⟨{ chip with globals := (rawHidReceive fw chip.globals data).1 }, ?_,
    ⟨slots, lost, hlayout, rfl, hlost⟩, hnul, text', hafter⟩
  rw [Chip.rawHidReceive, if_neg hf]

lemma finish_terminated {text : List UInt8} (h : Holds fw kb text)
    (hroom : Room fw kb → text.length < fw.bufferMax) (hnul : ∀ r ∈ kb.registerHead, 0 ∈ r.data) :
    ∀ r ∈ (finish fw kb).1.registerHead, 0 ∈ r.data := by
  by_cases hr : Room fw kb
  · obtain ⟨n, hn⟩ := finish_room hr
    rw [hn]
    intro r hm
    rcases Keyed.mem_put _ hm with rfl | hm
    · rw [copied_of_holds h (hroom hr)]
      simp
    · exact hnul r hm
  · obtain ⟨n, hn⟩ := finish_no_room hr
    rw [hn]
    exact hnul

lemma stands_finish (h : Stands fw chip s) (payload : List UInt8) :
    (InBounds fw (finish fw s.1).1 → ∃ chip',
      chip.rawHidReceive fw mem size (msgFinish :: payload) = some (chip', some (finish fw s.1).2) ∧
      Stands fw chip' ((finish fw s.1).1, s.2 + if Leaks fw s.1 then 1 else 0)) ∧
    (InBounds fw s.1 → ¬ InBounds fw (finish fw s.1).1 →
      chip.rawHidReceive fw mem size (msgFinish :: payload) = none) := by
  obtain ⟨kb, n⟩ := s
  obtain ⟨⟨slots, lost, hlayout, hkb, hlost⟩, hnul, text, hholds⟩ := id h
  obtain rfl : chip.keyboard slots = kb := hkb
  have hfollows := finish_follows fw mem hlayout size
  have hoffset : chip.globals.kbRegisterBufferOffset = text.length := hholds.offset
  rw [finish_inBounds hholds]
  constructor
  · rintro ⟨_, hroom⟩
    obtain ⟨chip', slots', lost', hfin, hkb', hlayout', hlost'⟩ := hfollows.answers (hoffset ▸ hroom)
    refine ⟨chip', by simp [Chip.rawHidReceive, hfin], ⟨slots', lost', hlayout', hkb', ?_⟩, ?_, ?_⟩
    · rw [hlost', hlost]
    · exact finish_terminated hholds hroom hnul
    · exact ⟨text, finish_holds hholds⟩
  · intro hin hout
    have hfull : Room fw (chip.keyboard slots) ∧ ¬ text.length < fw.bufferMax := by
      by_contra hno
      exact hout ⟨hin, fun hr => by_contra fun hlt => hno ⟨hr, hlt⟩⟩
    simp [Chip.rawHidReceive, hfollows.faults hfull.1 (hoffset ▸ hfull.2)]

lemma eq_finish_cons {data : List UInt8} (h : data.headD 0 = msgFinish) :
    ∃ payload, data = msgFinish :: payload := by
  cases data with
  | nil => exact absurd h (by decide)
  | cons x xs => exact ⟨xs, by rw [← h]; rfl⟩

theorem chip_simulates (fw : Build) (mem : Allocator A) (size : ℕ) :
    Simulates (Chip.step fw mem size) (tally fw) (Stands fw) fun s => InBounds fw s.1 := by
  constructor
  · intro chip s e h hin
    cases e with
    | key e =>
      obtain ⟨chip', hstep, hstands⟩ := key_follows h e
      exact ⟨chip', by rw [Chip.step, hstep]; rfl, hstands⟩
    | report data hlen =>
      by_cases hf : data.headD 0 = msgFinish
      · obtain ⟨payload, rfl⟩ := eq_finish_cons hf
        simp only [tally, Keyboard.next, leaked, receive_finish] at hin ⊢
        obtain ⟨chip', hstep, hstands⟩ := (stands_finish h payload).1 hin
        refine ⟨chip', by rw [Chip.step, hstep]; rfl, ?_⟩
        simpa using hstands
      · obtain ⟨chip', hstep, hstands⟩ := receive_follows mem size h hlen hf
        refine ⟨chip', by rw [Chip.step, hstep]; rfl, ?_⟩
        have hkeeps : leaked fw s.1 (.report data hlen) = 0 := if_neg fun hl => hf hl.1
        rw [tally, hkeeps]
        exact hstands
  · intro chip s e h hin hout
    cases e with
    | key e => exact absurd ((key_inBounds e).mpr hin) hout
    | report data hlen =>
      by_cases hf : data.headD 0 = msgFinish
      · obtain ⟨payload, rfl⟩ := eq_finish_cons hf
        simp only [tally, Keyboard.next, receive_finish] at hout
        rw [Chip.step, (stands_finish h payload).2 hin hout]
        rfl
      · exact absurd ((receive_inBounds hlen hf).mpr hin) hout
  · exact inBounds_of_next

end Steps

lemma next_holds {text : List UInt8} (h : Holds fw kb text) (e : Input) :
    ∃ text', Holds fw (kb.next fw e).1 text' := by
  cases e with
  | report data hlen => exact receive_holds h hlen
  | key e => exact ⟨text, key_holds h e⟩

lemma next_inBounds {text : List UInt8} (h : Holds fw kb text) (e : Input) :
    InBounds fw (kb.next fw e).1 ↔ InBounds fw kb ∧ ¬ Overruns fw kb e := by
  cases e with
  | key e =>
    rw [and_iff_left (by exact id)]
    exact key_inBounds e
  | report data hlen =>
    by_cases hf : data.headD 0 = msgFinish
    · obtain ⟨payload, rfl⟩ := eq_finish_cons hf
      have hfull : ¬ text.length < fw.bufferMax ↔ kb.kbRegisterBufferOffset = fw.bufferMax := by
        have hle := h.fits
        rw [h.offset]
        omega
      simp only [Keyboard.next, receive_finish, finish_inBounds h, Overruns, List.headD_cons, true_and,
        ← hfull, not_and, not_not]
    · rw [and_iff_left fun ho => hf ho.1]
      exact receive_inBounds hlen hf

lemma play_inBounds {text : List UInt8} (h : Holds fw kb text) (es : List Input) :
    InBounds fw (play (Keyboard.next fw) kb es).1 ↔ InBounds fw kb ∧ ¬ OverrunsIn fw kb es := by
  induction es generalizing kb text with
  | nil => simp [play, OverrunsIn]
  | cons e es ih =>
    obtain ⟨text', h'⟩ := next_holds h e
    rw [play, ih h', next_inBounds h, OverrunsIn, not_or, and_assoc]

lemma play_tally (n : ℕ) (es : List Input) : play (tally fw) (kb, n) es =
    (((play (Keyboard.next fw) kb es).1, n + losses fw kb es), (play (Keyboard.next fw) kb es).2) := by
  induction es generalizing kb n with
  | nil => rfl
  | cons e es ih => simp only [play, tally, losses, ih, Nat.add_assoc]

section PowerUp

variable {A : Type} [DecidableEq A]

lemma powerUp_holds (fw : Build) (memory : ℕ → UInt8) : Holds fw (powerUp fw memory) [] :=
  ⟨rfl, Nat.zero_le _, fun i hi => by simp [powerUp, hi]⟩

lemma powerUp_stands (fw : Build) (memory : ℕ → UInt8) :
    Stands fw (Chip.powerUp fw memory : Chip A) (powerUp fw memory, 0) := by
  refine ⟨⟨[], [], ⟨.nil, ?_, ?_⟩, rfl, rfl⟩, ?_, [], powerUp_holds fw memory⟩
  · intro t hm
    cases hm
  · exact List.Perm.refl _
  · intro r hm
    cases hm

lemma powerUp_inBounds (fw : Build) (memory : ℕ → UInt8) : InBounds fw (powerUp fw memory) :=
  fun a ha => by cases ha

section Chips

variable {mem : Allocator A} {size : ℕ} {memory : ℕ → UInt8} {es : List Input} {chip : Chip A}
  {os : List Output}

lemma chip_inBounds (h : run (Chip.step fw mem size) (Chip.powerUp fw memory) es = some (chip, os)) :
    InBounds fw (play (Keyboard.next fw) (powerUp fw memory) es).1 := by
  have hok : InBounds fw (play (tally fw) (powerUp fw memory, 0) es).1.1 := by
    by_contra hbad
    rw [(chip_simulates fw mem size).run_faults (powerUp_stands fw memory) (powerUp_inBounds fw memory)
      hbad] at h
    cases h
  rwa [play_tally] at hok

lemma chip_stands (h : run (Chip.step fw mem size) (Chip.powerUp fw memory) es = some (chip, os)) :
    os = (play (Keyboard.next fw) (powerUp fw memory) es).2 ∧
      Stands fw chip ((play (Keyboard.next fw) (powerUp fw memory) es).1,
        losses fw (powerUp fw memory) es) := by
  have hok : InBounds fw (play (tally fw) (powerUp fw memory, 0) es).1.1 := by
    rw [play_tally]
    exact chip_inBounds h
  obtain ⟨chip', hrun, hstands⟩ :=
    (chip_simulates fw mem size).run_answers (powerUp_stands (A := A) fw memory) hok
  rw [h] at hrun
  cases hrun
  rw [play_tally] at hstands ⊢
  rw [Nat.zero_add] at hstands
  exact ⟨rfl, hstands⟩

lemma chip_goes_on (h : run (Chip.step fw mem size) (Chip.powerUp fw memory) es = some (chip, os))
    {es' : List Input} (hin : InBounds fw (play (Keyboard.next fw) (powerUp fw memory) (es ++ es')).1) :
    ∃ chip', run (Chip.step fw mem size) chip es' =
      some (chip', (play (Keyboard.next fw) (play (Keyboard.next fw) (powerUp fw memory) es).1 es').2) := by
  rw [play_append] at hin
  have hok (n : ℕ) : InBounds fw
      (play (tally fw) ((play (Keyboard.next fw) (powerUp fw memory) es).1, n) es').1.1 := by
    rw [play_tally]
    exact hin
  obtain ⟨chip', hrun, -⟩ := (chip_simulates fw mem size).run_answers (chip_stands h).2 (hok _)
  rw [play_tally] at hrun
  exact ⟨chip', hrun⟩

end Chips

lemma chip_faults_iff (fw : Build) (mem : Allocator A) (size : ℕ) (memory : ℕ → UInt8)
    (es : List Input) : run (Chip.step fw mem size) (Chip.powerUp fw memory) es = none ↔
      OverrunsIn fw (powerUp fw memory) es := by
  rw [(chip_simulates fw mem size).run_eq_none_iff (powerUp_stands fw memory) (powerUp_inBounds fw memory),
    play_tally, play_inBounds (powerUp_holds fw memory), and_iff_right (powerUp_inBounds fw memory), not_not]

theorem chip_refines (fw : Build) (mem : Allocator A) (size : ℕ) (memory : ℕ → UInt8)
    (es : List Input) :
    (run (Chip.step fw mem size) (Chip.powerUp fw memory) es = none ↔
      OverrunsIn fw (powerUp fw memory) es) ∧
    ∀ chip os, run (Chip.step fw mem size) (Chip.powerUp fw memory) es = some (chip, os) →
      os = (play (Keyboard.next fw) (powerUp fw memory) es).2 ∧
      ∃ slots lost, Layout chip slots lost ∧
        chip.keyboard slots = (play (Keyboard.next fw) (powerUp fw memory) es).1 := by
  refine ⟨chip_faults_iff fw mem size memory es, fun chip os h => ?_⟩
  obtain ⟨hos, hstands⟩ := chip_stands h
  obtain ⟨slots, lost, hlayout, hkb, _⟩ := hstands.layout
  exact ⟨hos, slots, lost, hlayout, hkb⟩

lemma next_registers (fw : Build) (kb : Keyboard) (e : Input) :
    (kb.next fw e).1.registerHead = kb.registerHead ∨ ∃ data,
      (kb.next fw e).1.registerHead =
        Keyed.put Register.keycode ⟨kb.current fw, data⟩ kb.registerHead := by
  cases e with
  | report data hlen =>
    simp only [Keyboard.next, rawHidReceive]
    split_ifs
    · exact Or.inl rfl
    · exact Or.inl (receive_set_same _).registers
    · exact Or.inl (appendLoop_same kb _).registers
    · by_cases hr : Room fw kb
      · obtain ⟨n, hn⟩ := finish_room hr
        rw [hn]
        exact Or.inr ⟨kb.copied, rfl⟩
      · obtain ⟨n, hn⟩ := finish_no_room hr
        rw [hn]
        exact Or.inl rfl
    · exact Or.inl rfl
  | key e =>
    simp only [Keyboard.next, processRecordUser]
    split_ifs
    · exact Or.inl rfl
    · exact Or.inl rfl
    · exact Or.inl rfl
    · split <;> exact Or.inl rfl
    · exact Or.inl rfl

structure OneByte (fw : Build) (kb : Keyboard) : Prop where
  unique : (kb.registerHead.map Register.keycode).Nodup
  keycodes : ∀ r ∈ kb.registerHead, ∃ c, r.keycode = fw.widen c

lemma next_oneByte (h : OneByte fw kb) (e : Input) : OneByte fw (kb.next fw e).1 := by
  rcases next_registers fw kb e with hr | ⟨data, hr⟩
  · exact ⟨hr ▸ h.unique, hr ▸ h.keycodes⟩
  · constructor
    · rw [hr]
      exact Keyed.put_nodup _ _ h.unique
    · intro r hm
      rw [hr] at hm
      rcases Keyed.mem_put _ hm with rfl | hm
      · exact ⟨kb.kbRegisterNextKeycode, rfl⟩
      · exact h.keycodes r hm

lemma play_oneByte (h : OneByte fw kb) (es : List Input) :
    OneByte fw (play (Keyboard.next fw) kb es).1 := by
  induction es generalizing kb with
  | nil => exact h
  | cons e es ih => exact ih (next_oneByte h e)

lemma OneByte.length_le (h : OneByte fw kb) : kb.registerHead.length ≤ 256 := by
  have hsub : kb.registerHead.map Register.keycode ⊆
      (List.range 256).map fun i => fw.widen (UInt8.ofNat i) := by
    intro k hk
    obtain ⟨r, hr, rfl⟩ := List.mem_map.mp hk
    obtain ⟨c, hc⟩ := h.keycodes r hr
    rw [List.mem_map]
    exact ⟨c.toNat, List.mem_range.mpr c.toNat_lt, by rw [hc, UInt8.ofNat_toNat]⟩
  have hle := (List.subperm_of_subset h.unique hsub).length_le
  rwa [List.length_map, List.length_map, List.length_range] at hle

theorem heap_accounted (fw : Build) (mem : Allocator A) (size : ℕ) (memory : ℕ → UInt8)
    (es : List Input) (chip : Chip A) (os : List Output)
    (h : run (Chip.step fw mem size) (Chip.powerUp fw memory) es = some (chip, os)) :
    chip.heap.keys.length =
        2 * (play (Keyboard.next fw) (powerUp fw memory) es).1.registerHead.length +
          losses fw (powerUp fw memory) es ∧
      (play (Keyboard.next fw) (powerUp fw memory) es).1.registerHead.length ≤ 256 := by
  obtain ⟨_, hstands⟩ := chip_stands h
  obtain ⟨slots, lost, hlayout, hkb, hlost⟩ := hstands.layout
  constructor
  · have hlen := hlayout.owned.length_eq
    simp only [List.length_append, List.length_map] at hlen
    have hregs : (chip.keyboard slots).registerHead.length = slots.length := List.length_map _
    rw [hkb] at hregs
    simp only at hlost hregs
    omega
  · have hempty : OneByte fw (powerUp fw memory) := ⟨List.nodup_nil, fun r hm => by cases hm⟩
    exact (play_oneByte hempty es).length_le

def countingMemory : Allocator ℕ where
  place heap _ := heap.keys.foldr max 0 + 1
  fresh heap size h := by
    have hle := List.le_max_of_le' 0 (AList.mem_keys.mp h) le_rfl
    exact absurd hle (Nat.not_succ_le_self _)
  oldNode _ := ⟨0xFFFF, some 3, some 7⟩
  oldText n i := UInt8.ofNat (n + i)

theorem heap_accounted_lost : ∃ chip os,
    run (Chip.step (readmeBuild id fun n => n != 1) countingMemory 16)
      (Chip.powerUp (readmeBuild id fun n => n != 1) fun _ => 0)
      [.report (msgFinish :: List.replicate 31 0) rfl] = some (chip, os) ∧
    chip.heap.keys.length = 2 * 0 + 1 :=
  ⟨_, _, rfl, (heap_accounted (readmeBuild id fun n => n != 1) countingMemory 16 (fun _ => 0)
    [.report (msgFinish :: List.replicate 31 0) rfl] _ _ rfl).1⟩

end PowerUp

end KbReg.Firmware
