import KbReg.Firmware.Execution
import Mathlib.Data.List.TakeWhile

/-! What the firmware does, as somebody sees it who reads the reports, the answers and the keys. -/

namespace KbReg.Firmware

open KbReg Transcripts

structure Notebook where
  texts : UInt16 → Option (List UInt8)
  selected : UInt16
  page : List UInt8
  held : Bool

namespace Notebook

variable (fw : Build)

def empty : Notebook := ⟨fun _ => none, fw.widen 0, [], false⟩

variable (nb : Notebook)

def extended (payload : List UInt8) : List UInt8 := (nb.page ++ untilNul payload).take fw.bufferMax

def Extends (payload : List UInt8) : Prop :=
  nb.page.length + (untilNul payload).length < fw.bufferMax ∨
    untilNul payload = payload ∧ nb.page.length + payload.length ≤ fw.bufferMax

instance (payload : List UInt8) : Decidable (nb.Extends fw payload) :=
  inferInstanceAs (Decidable (_ ∨ _))

def played (e : KeyEvent) : Played :=
  match nb.texts e.keycode with
  | none => .guiTap e.keycode
  | some text => .text text

def Answers (data : List UInt8) (response : Option Response) : Prop :=
  if data.headD 0 = msgKey ∨ data.headD 0 = msgSet then response = some .ok
  else if data.headD 0 = msgAppend then
    response = some (if nb.Extends fw data.tail then .ok else .overflow)
  else if data.headD 0 = msgFinish then
    response = some .ok ∧ nb.page.length < fw.bufferMax ∨ response = some .outOfMemory
  else response = none

def types (e : KeyEvent) : Option Played × Option Bool :=
  if e.keycode = fw.kcRgui then (none, some false)
  else if nb.held then
    (if e.pressed ∨ e.rightShift then none else some (nb.played e), some false)
  else (none, none)

def Allows : Input → Output → Prop
  | .report data _, .response response => nb.Answers fw data response
  | .key e, .typed played handled => (played, handled) = nb.types fw e
  | _, _ => False

def commit : Notebook :=
  { nb with texts := fun c => if c = nb.selected then some nb.page else nb.texts c }

def receive (data : List UInt8) (response : Option Response) : Notebook :=
  if data.headD 0 = msgKey then
    { nb with selected := fw.widen (fw.asciiToKeycodeLut (data.tail.headD 0)) }
  else if data.headD 0 = msgSet then { nb with page := untilNul data.tail }
  else if data.headD 0 = msgAppend then { nb with page := nb.extended fw data.tail }
  else if data.headD 0 = msgFinish ∧ response = some .ok then nb.commit
  else nb

def press (e : KeyEvent) : Notebook :=
  if e.keycode = fw.kcRgui then { nb with held := e.pressed }
  else if nb.held ∧ e.pressed = false ∧ e.rightShift = true then
    { nb with selected := fw.widen e.keycode.toUInt8 }
  else nb

def observe : Input → Output → Notebook
  | .report data _, .response response => nb.receive fw data response
  | .key e, _ => nb.press fw e
  | _, _ => nb

def fate : Input → Output → List Bool
  | .report data _, .response response =>
    if data.headD 0 = msgFinish then
      if response = some .ok then (if nb.texts nb.selected = none then [true, true] else [true])
      else [false]
    else []
  | _, _ => []

def fates (nb : Notebook) : List (Input × Output) → List Bool
  | [] => []
  | (e, o) :: l => nb.fate e o ++ fates (nb.observe fw e o) l

structure Describes (kb : Keyboard) : Prop where
  stored : ∀ c, kb.stored c = (nb.texts c).map (· ++ [0])
  current : kb.current fw = nb.selected
  buffer : Holds fw kb nb.page
  held : kb.rguiPressed = nb.held
  page_nul : 0 ∉ nb.page
  texts_nul : ∀ c text, nb.texts c = some text → 0 ∉ text

end Notebook

variable {fw : Build} {kb : Keyboard} {nb : Notebook}

lemma zero_not_mem_untilNul (xs : List UInt8) : 0 ∉ untilNul xs := by
  intro h
  have hp := List.mem_takeWhile_imp h
  simp at hp

lemma Notebook.Describes.plays (h : nb.Describes fw kb) (c : UInt16) :
    (kb.getRegister c).map (fun node => node.data.takeWhile (· ≠ 0)) = nb.texts c := by
  have hs := h.stored c
  rw [Keyboard.stored] at hs
  cases ht : nb.texts c with
  | none =>
    rw [ht] at hs
    cases hg : kb.getRegister c with
    | none => rfl
    | some node =>
      rw [hg] at hs
      cases hs
  | some text =>
    rw [ht] at hs
    obtain ⟨node, hg, hd⟩ := Option.map_eq_some_iff.mp hs
    rw [hg, Option.map_some, hd]
    exact congrArg some (untilNul_append_zero (h.texts_nul c text ht) rfl)

lemma describes_press (h : nb.Describes fw kb) (e : KeyEvent) :
    (processRecordUser fw kb e).2 = nb.types fw e ∧
      (nb.press fw e).Describes fw (processRecordUser fw kb e).1 := by
  simp only [processRecordUser, Notebook.types, Notebook.press, h.held]
  by_cases hrgui : e.keycode = fw.kcRgui
  · simp only [hrgui, if_true]
    exact ⟨trivial, h.stored, h.current, ⟨h.buffer.offset, h.buffer.fits, h.buffer.cells⟩, rfl,
      h.page_nul, h.texts_nul⟩
  simp only [hrgui, if_false]
  by_cases hheld : nb.held
  swap
  · simpa [hheld] using h
  by_cases hpressed : e.pressed
  · simpa [hheld, hpressed] using h
  by_cases hshift : e.rightShift
  · simp only [hheld, hpressed, hshift, if_true, true_and, or_true, Bool.false_eq_true, if_false]
    exact ⟨h.stored, rfl, ⟨h.buffer.offset, h.buffer.fits, h.buffer.cells⟩, rfl,
      h.page_nul, h.texts_nul⟩
  · simp only [hheld, hpressed, hshift, if_true, and_false, or_false, Bool.false_eq_true, if_false]
    have hplays := h.plays e.keycode
    cases hg : kb.getRegister e.keycode with
    | none =>
      rw [hg] at hplays
      simpa [Notebook.played, ← hplays] using h
    | some node =>
      rw [hg] at hplays
      simpa [Notebook.played, ← hplays] using h

lemma appendLoop_answer (h : Holds fw kb nb.page) (xs : List UInt8) :
    (appendLoop fw kb xs).2 = if nb.Extends fw xs then .ok else .overflow := by
  have hiff := appendLoop_ok_iff h xs
  by_cases hx : nb.Extends fw xs
  · rw [if_pos hx]
    exact hiff.mpr hx
  · rw [if_neg hx]
    exact (appendLoop_response kb xs).resolve_left fun hok => hx (hiff.mp hok)

lemma describes_same {kb' : Keyboard} {page : List UInt8} (h : nb.Describes fw kb) (hs : Same kb kb')
    (hpressed : kb'.rguiPressed = kb.rguiPressed) (hb : Holds fw kb' page) (hnul : 0 ∉ page) :
    Notebook.Describes fw { nb with page := page } kb' :=
  ⟨fun c => by rw [hs.stored]; exact h.stored c, by rw [hs.current fw]; exact h.current, hb,
    hpressed.trans h.held, hnul, h.texts_nul⟩

lemma setLoop_pressed (kb : Keyboard) (xs : List UInt8) :
    (setLoop kb xs).rguiPressed = kb.rguiPressed := by
  have h := congrArg Keyboard.rguiPressed (setLoop_rgui kb kb.rguiPressed xs)
  exact h

lemma appendLoop_pressed (kb : Keyboard) (xs : List UInt8) :
    (appendLoop fw kb xs).1.rguiPressed = kb.rguiPressed := by
  have h := congrArg Keyboard.rguiPressed (appendLoop_rgui fw kb kb.rguiPressed xs)
  exact h

lemma finish_pressed (fw : Build) (kb : Keyboard) :
    (finish fw kb).1.rguiPressed = kb.rguiPressed := by
  have h := congrArg Keyboard.rguiPressed (finish_rgui fw kb kb.rguiPressed)
  exact h

lemma zero_not_mem_extended (h : nb.Describes fw kb) (payload : List UInt8) :
    0 ∉ nb.extended fw payload := by
  intro hm
  rcases List.mem_append.mp (List.mem_of_mem_take hm) with hp | hp
  · exact h.page_nul hp
  · exact zero_not_mem_untilNul _ hp

lemma describes_finish (h : nb.Describes fw kb) (hroom : Room fw kb → nb.page.length < fw.bufferMax) :
    Notebook.Describes fw (if (finish fw kb).2 = .ok then nb.commit else nb) (finish fw kb).1 := by
  have hkeep : (finish fw kb).1.current fw = nb.selected := finish_current.trans h.current
  have hheld := (finish_pressed fw kb).trans h.held
  rw [finish_response]
  by_cases hr : Room fw kb
  · rw [if_pos hr, if_pos rfl]
    refine ⟨?_, hkeep, finish_holds h.buffer, hheld, h.page_nul, ?_⟩
    · intro c
      simp only [finish_stored, hr, true_and, h.current, Notebook.commit, h.stored c,
        copied_of_holds h.buffer (hroom hr)]
      split_ifs
      · rfl
      · rfl
    · intro c text ht
      simp only [Notebook.commit] at ht
      split_ifs at ht
      · cases ht
        exact h.page_nul
      · exact h.texts_nul c text ht
  · rw [if_neg hr, if_neg (by decide)]
    refine ⟨?_, hkeep, finish_holds h.buffer, hheld, h.page_nul, h.texts_nul⟩
    intro c
    rw [finish_stored, if_neg fun hh => hr hh.1, h.stored c]

lemma finish_answer (hroom : Room fw kb → nb.page.length < fw.bufferMax) :
    (finish fw kb).2 = .ok ∧ nb.page.length < fw.bufferMax ∨ (finish fw kb).2 = .outOfMemory := by
  rw [finish_response]
  by_cases hr : Room fw kb
  · exact Or.inl ⟨if_pos hr, hroom hr⟩
  · exact Or.inr (if_neg hr)

lemma describes_receive (h : nb.Describes fw kb) {data : List UInt8} (hlen : data.length = 32)
    (hno : ¬ Overruns fw kb (.report data hlen)) :
    nb.Answers fw data (rawHidReceive fw kb data).2 ∧
      (nb.receive fw data (rawHidReceive fw kb data).2).Describes fw (rawHidReceive fw kb data).1 := by
  simp only [rawHidReceive, Notebook.Answers, Notebook.receive]
  by_cases hk : data.headD 0 = msgKey
  · simp only [hk, if_true, true_or]
    exact ⟨trivial, h.stored, rfl, ⟨h.buffer.offset, h.buffer.fits, h.buffer.cells⟩, h.held,
      h.page_nul, h.texts_nul⟩
  by_cases hs : data.headD 0 = msgSet
  · have hne : msgSet ≠ msgKey := by decide
    simp only [hs, hne, if_true, if_false, or_true]
    refine ⟨trivial, describes_same h (receive_set_same _) (setLoop_pressed _ _)
      (receive_set_holds fw kb data.tail (by simp [hlen])) (zero_not_mem_untilNul _)⟩
  by_cases ha : data.headD 0 = msgAppend
  · have hne : msgAppend ≠ msgKey ∧ msgAppend ≠ msgSet := by decide
    simp only [ha, hne, if_true, if_false, or_self]
    refine ⟨by rw [appendLoop_answer h.buffer], ?_⟩
    exact describes_same h (appendLoop_same kb _) (appendLoop_pressed kb _)
      (appendLoop_holds h.buffer data.tail) (zero_not_mem_extended h _)
  by_cases hf : data.headD 0 = msgFinish
  · have hroom : Room fw kb → nb.page.length < fw.bufferMax := by
      intro hr
      by_contra hfull
      have hle := h.buffer.fits
      exact hno ⟨hf, hr, by rw [h.buffer.offset]; omega⟩
    have hne : msgFinish ≠ msgKey ∧ msgFinish ≠ msgSet ∧ msgFinish ≠ msgAppend := by decide
    simp only [hf, hne, if_true, if_false, or_self, true_and, Option.some.injEq]
    exact ⟨finish_answer hroom, describes_finish h hroom⟩
  · simp only [hk, hs, ha, hf, if_false, or_self, false_and]
    exact ⟨trivial, h⟩

lemma describes_next (h : nb.Describes fw kb) (e : Input) (hno : ¬ Overruns fw kb e) :
    nb.Allows fw e (kb.next fw e).2 ∧
      (nb.observe fw e (kb.next fw e).2).Describes fw (kb.next fw e).1 := by
  cases e with
  | report data hlen => exact describes_receive h hlen hno
  | key e => exact describes_press h e

lemma allows_unique {data : List UInt8} (hf : data.headD 0 ≠ msgFinish) {r r' : Option Response}
    (h : nb.Answers fw data r) (h' : nb.Answers fw data r') : r = r' := by
  simp only [Notebook.Answers, hf, if_false] at h h'
  split_ifs at h h'
  · rw [h, h']
  · rw [h, h']
  · rw [h, h']
  · rw [h, h']

lemma receive_mallocs (fw : Build) (kb : Keyboard) {data : List UInt8} (hf : data.headD 0 ≠ msgFinish) :
    (rawHidReceive fw kb data).1.mallocs = kb.mallocs := by
  simp only [rawHidReceive, hf, if_false]
  split_ifs
  · rfl
  · exact (receive_set_same _).mallocs
  · exact (appendLoop_same _ _).mallocs
  · rfl

def Grants (fw : Build) (n : ℕ) (outcomes : List Bool) : Prop :=
  ∀ i b, outcomes[i]? = some b → fw.malloc (n + i) = b

lemma Grants.head {n : ℕ} {b : Bool} {outcomes : List Bool} (h : Grants fw n (b :: outcomes)) :
    fw.malloc n = b := h 0 b rfl

lemma Grants.append {n : ℕ} {l m : List Bool} (h : Grants fw n (l ++ m)) :
    Grants fw n l ∧ Grants fw (n + l.length) m := by
  constructor
  · intro i b hi
    exact h i b (by rw [List.getElem?_append_left (List.getElem?_eq_some_iff.mp hi).1, hi])
  · intro i b hi
    rw [Nat.add_assoc]
    exact h (l.length + i) b (by rw [List.getElem?_append_right (Nat.le_add_right _ _),
      Nat.add_sub_cancel_left, hi])

lemma finish_granted (h : nb.Describes fw kb)
    (hg : Grants fw kb.mallocs (if nb.texts nb.selected = none then [true, true] else [true])) :
    (finish fw kb).2 = .ok ∧ (finish fw kb).1.mallocs =
      kb.mallocs + (if nb.texts nb.selected = none then [true, true] else [true]).length := by
  have hplays := h.plays nb.selected
  rw [← h.current] at hg hplays ⊢
  cases hc : kb.getRegister (kb.current fw) with
  | none =>
    rw [hc, Option.map_none] at hplays
    rw [← hplays, if_pos rfl] at hg ⊢
    rw [finish_new kb hg.head hc (hg 1 true rfl)]
    exact ⟨rfl, rfl⟩
  | some node =>
    rw [hc, Option.map_some] at hplays
    rw [← hplays, if_neg (by simp)] at hg ⊢
    rw [finish_again kb hg.head hc]
    exact ⟨rfl, rfl⟩

lemma key_mallocs (kb : Keyboard) (e : KeyEvent) :
    (processRecordUser fw kb e).1.mallocs = kb.mallocs := by
  simp only [processRecordUser]
  split_ifs
  · rfl
  · rfl
  · rfl
  · split <;> rfl
  · rfl

lemma finish_step (h : nb.Describes fw kb) {payload : List UInt8} {r : Option Response}
    (ha : nb.Answers fw (msgFinish :: payload) r) (hlen : (msgFinish :: payload).length = 32)
    (hg : Grants fw kb.mallocs (nb.fate (.report (msgFinish :: payload) hlen) (.response r))) :
    (kb.next fw (.report (msgFinish :: payload) hlen)).2 = .response r ∧
      ¬ Overruns fw kb (.report (msgFinish :: payload) hlen) ∧
      (kb.next fw (.report (msgFinish :: payload) hlen)).1.mallocs =
        kb.mallocs + (nb.fate (.report (msgFinish :: payload) hlen) (.response r)).length := by
  have hne : msgFinish ≠ msgKey ∧ msgFinish ≠ msgSet ∧ msgFinish ≠ msgAppend := by decide
  simp only [Notebook.Answers, List.headD_cons, hne, or_self, if_false, if_true] at ha
  simp only [Keyboard.next, receive_finish, Notebook.fate, List.headD_cons, if_true] at hg ⊢
  rcases ha with ⟨rfl, hlt⟩ | rfl
  · rw [if_pos rfl] at hg ⊢
    obtain ⟨hok, hcount⟩ := finish_granted h hg
    refine ⟨by rw [hok], fun ho => ?_, hcount⟩
    have hfull := ho.2.2
    rw [h.buffer.offset] at hfull
    exact hlt.ne hfull
  · rw [if_neg (by decide)] at hg ⊢
    have hrefused := finish_refused kb hg.head
    refine ⟨by rw [hrefused], fun ho => ?_, by rw [hrefused]; rfl⟩
    have hgranted := ho.2.1.1
    rw [hg.head] at hgranted
    cases hgranted

lemma next_granted (h : nb.Describes fw kb) {e : Input} {o : Output} (ha : nb.Allows fw e o)
    (hg : Grants fw kb.mallocs (nb.fate e o)) : (kb.next fw e).2 = o ∧ ¬ Overruns fw kb e ∧
      (kb.next fw e).1.mallocs = kb.mallocs + (nb.fate e o).length := by
  cases e with
  | key e =>
    cases o with
    | response r => exact ha.elim
    | typed played handled =>
      have hkey := (describes_press h e).1
      refine ⟨?_, id, key_mallocs kb e⟩
      simp only [Keyboard.next, Output.typed.injEq]
      rw [hkey, ← ha]
      exact ⟨rfl, rfl⟩
  | report data hlen =>
    cases o with
    | typed played handled => exact ha.elim
    | response r =>
      by_cases hf : data.headD 0 = msgFinish
      · obtain ⟨payload, rfl⟩ := eq_finish_cons hf
        exact finish_step h ha hlen hg
      · have hno : ¬ Overruns fw kb (.report data hlen) := fun ho => hf ho.1
        refine ⟨?_, hno, ?_⟩
        · exact congrArg Output.response (allows_unique hf (describes_receive h hlen hno).1 ha)
        · have hnone : nb.fate (.report data hlen) (.response r) = [] := if_neg hf
          rw [hnone]
          exact receive_mallocs fw kb hf

lemma play_granted {l : List (Input × Output)} (h : nb.Describes fw kb)
    (ha : Accepts (Notebook.Allows fw) (Notebook.observe fw) nb l)
    (hg : Grants fw kb.mallocs (Notebook.fates fw nb l)) :
    (play (Keyboard.next fw) kb (l.map Prod.fst)).2 = l.map Prod.snd ∧
      ¬ OverrunsIn fw kb (l.map Prod.fst) := by
  induction l generalizing nb kb with
  | nil => exact ⟨rfl, id⟩
  | cons p l ih =>
    obtain ⟨e, o⟩ := p
    obtain ⟨hallow, hrest⟩ := ha
    obtain ⟨hfirst, hlater⟩ := Grants.append hg
    obtain ⟨ho, hno, hcount⟩ := next_granted h hallow hfirst
    have hnext := (describes_next h e hno).2
    rw [ho] at hnext
    rw [← hcount] at hlater
    obtain ⟨hos, hover⟩ := ih hnext hrest hlater
    constructor
    · simp only [List.map_cons, play]
      rw [ho, hos]
    · exact fun hor => hor.elim hno hover

lemma empty_describes (fw : Build) (memory : ℕ → UInt8) :
    (Notebook.empty fw).Describes fw (powerUp fw memory) := by
  refine ⟨fun c => rfl, rfl, powerUp_holds fw memory, rfl, ?_, ?_⟩
  · intro hm
    cases hm
  · intro c text ht
    cases ht

lemma accepts_next {es : List Input} (h : nb.Describes fw kb) (hin : InBounds fw kb)
    (hno : ¬ OverrunsIn fw kb es) : Accepts (Notebook.Allows fw) (Notebook.observe fw) nb
      (es.zip (play (Keyboard.next fw) kb es).2) := by
  have hend := (play_inBounds h.buffer es).mpr ⟨hin, hno⟩
  refine accepts_play (fun {nb kb e} hdescribes hok => ?_) inBounds_of_next h hend
  exact describes_next hdescribes e ((next_inBounds hdescribes.buffer e).mp hok).2

lemma fates_malloc (malloc : ℕ → Bool) (l : List (Input × Output)) :
    Notebook.fates { fw with malloc := malloc } nb l = Notebook.fates fw nb l := by
  induction l generalizing nb with
  | nil => rfl
  | cons p l ih => exact congrArg (nb.fate p.1 p.2 ++ ·) ih

variable (fw) in
lemma transcript_accepted {A : Type} [DecidableEq A] {mem : Allocator A} {size : ℕ} {memory : ℕ → UInt8}
    {l : List (Input × Output)} {chip : Chip A}
    (h : run (Chip.step fw mem size) (Chip.powerUp fw memory) (l.map Prod.fst) =
      some (chip, l.map Prod.snd)) :
    Accepts (Notebook.Allows fw) (Notebook.observe fw) (Notebook.empty fw) l := by
  have hno : ¬ OverrunsIn fw (powerUp fw memory) (l.map Prod.fst) := by
    intro ho
    rw [(chip_faults_iff fw mem size memory _).mpr ho] at h
    cases h
  have haccepts := accepts_next (empty_describes fw memory) (powerUp_inBounds fw memory) hno
  rw [← (chip_stands h).1, List.zip_map', List.map_id'] at haccepts
  exact haccepts

theorem transcript_iff {A : Type} [DecidableEq A] (fw : Build) (mem : Allocator A) (size : ℕ)
    (memory : ℕ → UInt8) (l : List (Input × Output)) :
    (∃ malloc chip, run (Chip.step { fw with malloc := malloc } mem size) (Chip.powerUp fw memory)
        (l.map Prod.fst) = some (chip, l.map Prod.snd)) ↔
      Accepts (Notebook.Allows fw) (Notebook.observe fw) (Notebook.empty fw) l := by
  constructor
  · rintro ⟨malloc, chip, hrun⟩
    exact transcript_accepted { fw with malloc := malloc } hrun
  · intro ha
    let fw' : Build := { fw with malloc := fun n => ((Notebook.fates fw (.empty fw) l)[n]?).getD true }
    have hg : Grants fw' (powerUp fw' memory).mallocs (Notebook.fates fw' (.empty fw') l) := by
      intro i b hi
      rw [fates_malloc] at hi
      change ((Notebook.fates fw (.empty fw) l)[0 + i]?).getD true = b
      rw [Nat.zero_add]
      exact (congrArg (·.getD true) hi).trans rfl
    obtain ⟨hos, hno⟩ := play_granted (empty_describes fw' memory) ha hg
    cases hrun : run (Chip.step fw' mem size) (Chip.powerUp fw' memory) (l.map Prod.fst) with
    | none => exact absurd ((chip_faults_iff fw' mem size memory _).mp hrun) hno
    | some r =>
      refine ⟨fw'.malloc, r.1, ?_⟩
      have hout := (chip_stands hrun).1
      rw [← hos, ← hout]
      exact hrun

end KbReg.Firmware
