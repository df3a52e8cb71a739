import KbReg.Firmware.Notebook
import KbReg.Lib.Gates
import KbReg.Protocol.Playback

/-! Which strokes of the keys get through the key handler while the right GUI key is used for the
registers. -/

namespace KbReg.Protocol

open KbReg.Firmware KbReg.Gates KbReg.Transcripts

def stroke (e : KeyEvent) : Stroke UInt16 := ⟨e.keycode, e.pressed⟩

def strokes (es : List Input) : List (Stroke UInt16) := es.filterMap fun
  | .report _ _ => none
  | .key e => some (stroke e)

variable (fw : Build)

def continued (kb : Keyboard) : List Input → List (Stroke UInt16)
  | [] => []
  | .report data hlen :: es => continued (kb.next fw (.report data hlen)).1 es
  | .key e :: es =>
    let rest := continued (kb.next fw (.key e)).1 es
    if (processRecordUser fw kb e).2.2 = none then stroke e :: rest else rest

/-- The mods report the right shift key as down from its press to its release, as far as these two get
through. -/
def ModsFollow (kcRsft : UInt16) (kb : Keyboard) (es : List Input) : Prop :=
  ∀ before e after, es = before ++ .key e :: after →
    e.rightShift = down kcRsft false (continued fw kb before)

variable {fw} {kb : Keyboard} {c : UInt16}

lemma next_rguiPressed (kb : Keyboard) (e : Input) :
    (kb.next fw e).1.rguiPressed = down fw.kcRgui kb.rguiPressed (strokes [e]) := by
  cases e with
  | report data hlen =>
    have h := congrArg Keyboard.rguiPressed (receive_rgui fw kb kb.rguiPressed data)
    exact h
  | key e =>
    simp only [Keyboard.next, processRecordUser]
    split_ifs with hgui
    · exact (if_pos hgui).symm
    · exact (if_neg hgui).symm
    · exact (if_neg hgui).symm
    · split <;> exact (if_neg hgui).symm
    · exact (if_neg hgui).symm

lemma strokes_append (es es' : List Input) : strokes (es ++ es') = strokes es ++ strokes es' :=
  List.filterMap_append

lemma strokes_cons (e : Input) (es : List Input) : strokes (e :: es) = strokes [e] ++ strokes es :=
  strokes_append [e] es

lemma play_rguiPressed (kb : Keyboard) (es : List Input) :
    (play (Keyboard.next fw) kb es).1.rguiPressed = down fw.kcRgui kb.rguiPressed (strokes es) := by
  induction es generalizing kb with
  | nil => rfl
  | cons e es ih => rw [play, ih, next_rguiPressed, strokes_cons e es, down_append]

lemma continues_iff {e : KeyEvent} :
    (processRecordUser fw kb e).2.2 = none ↔ ¬ (e.keycode = fw.kcRgui ∨ kb.rguiPressed = true) := by
  simp only [processRecordUser]
  split_ifs with hgui hpressed
  · simp [hgui]
  · simp [hpressed]
  · simp [hpressed]
  · split <;> simp [hpressed]
  · simp [hgui, hpressed]

lemma continued_eq (kb : Keyboard) (es : List Input) :
    continued fw kb es = through fw.kcRgui kb.rguiPressed (strokes es) := by
  induction es generalizing kb with
  | nil => rfl
  | cons e es ih =>
    have hrest := ih (kb.next fw e).1
    rw [next_rguiPressed] at hrest
    rw [strokes_cons e es, through_append, ← hrest]
    cases e with
    | report data hlen => rfl
    | key e =>
      have hone : through fw.kcRgui kb.rguiPressed (strokes [.key e]) =
          if e.keycode = fw.kcRgui ∨ kb.rguiPressed = true then [] else [stroke e] := through_singleton
      rw [hone, continued]
      by_cases h : e.keycode = fw.kcRgui ∨ kb.rguiPressed = true
      · rw [if_pos h, if_neg fun hc => continues_iff.mp hc h, List.nil_append]
      · rw [if_neg h, if_pos (continues_iff.mpr h), List.singleton_append]

theorem keys_stick_iff (fw : Build) (memory : ℕ → UInt8) (es : List Input) (c : UInt16)
    (hc : c ≠ fw.kcRgui) (halt : Alternates c false (strokes es)) :
    (∃ before, before <+: es ∧ down c false (strokes before) = false ∧
      down c false (continued fw (powerUp fw memory) before) = true) ↔
        Straddles fw.kcRgui c (strokes es) := by
  rw [← stuck_iff_straddles hc halt]
  constructor
  · rintro ⟨before, hp, hup, hdown⟩
    rw [continued_eq] at hdown
    exact ⟨_, hp.filterMap _, hup, hdown⟩
  · rintro ⟨p, hp, hup, hdown⟩
    obtain ⟨before, hbefore, rfl⟩ := List.prefix_filterMap_iff.mp hp
    refine ⟨before, hbefore, hup, ?_⟩
    rw [continued_eq]
    exact hdown

def keystroke (c : UInt16) (pressed shift : Bool) : Input := .key ⟨c, pressed, shift⟩

def shiftFirst : List Input :=
  [keystroke 0xE5 true false, keystroke 0xE7 true true, keystroke 4 true true, keystroke 4 false true,
    keystroke 0xE5 false true, keystroke 0xE7 false true]

theorem keys_stick_shift : ∃ before, before <+: shiftFirst ∧ down 0xE5 false (strokes before) = false ∧
    down 0xE5 false (continued plainBuild plainKeyboard before) = true :=
  (keys_stick_iff plainBuild (fun _ => 0) shiftFirst 0xE5 (by decide) (by decide)).mpr
    ⟨[], [⟨0xE7, true⟩, ⟨4, true⟩, ⟨4, false⟩], [⟨0xE7, false⟩], rfl, by decide, rfl, rfl⟩

lemma next_held {e : KeyEvent} (hc : e.keycode ≠ fw.kcRgui) (hpressed : kb.rguiPressed = true) :
    kb.next fw (.key e) =
      if e.pressed then (kb, .typed none (some false))
      else if e.rightShift then
        ({ kb with kbRegisterNextKeycode := e.keycode.toUInt8 }, .typed none (some false))
      else (kb, .typed (tapped fw kb e.keycode) (some false)) := by
  simp only [Keyboard.next, processRecordUser, if_neg hc, if_pos hpressed]
  split_ifs
  · rfl
  · rfl
  · rw [tapped_eq hc, Keyboard.stored]
    cases kb.getRegister e.keycode with
    | none => rfl
    | some node => rfl

theorem hold_decides (fw : Build) (memory : ℕ → UInt8) (kcRsft : UInt16) (before hold : List Input)
    (gui : KeyEvent) (hgui : stroke gui = ⟨fw.kcRgui, true⟩)
    (hhold : ∀ e, .key e ∈ hold → e.keycode ≠ fw.kcRgui)
    (hmods : ModsFollow fw kcRsft (powerUp fw memory) (before ++ .key gui :: hold))
    (i : ℕ) (e : KeyEvent) (hi : hold[i]? = some (.key e)) :
    let kb := (play (Keyboard.next fw) (powerUp fw memory) (before ++ .key gui :: hold.take i)).1
    kb.next fw (.key e) =
      if e.pressed then (kb, .typed none (some false))
      else if down kcRsft false (continued fw (powerUp fw memory) before) then
        ({ kb with kbRegisterNextKeycode := e.keycode.toUInt8 }, .typed none (some false))
      else (kb, .typed (tapped fw kb e.keycode) (some false)) := by
  intro kb
  obtain ⟨hlt, hget⟩ := List.getElem?_eq_some_iff.mp hi
  have hsplit : before ++ .key gui :: hold =
      before ++ .key gui :: hold.take i ++ .key e :: hold.drop (i + 1) := by
    rw [List.append_assoc, List.cons_append, ← hget, List.getElem_cons_drop, List.take_append_drop]
  have hheld : ∀ s ∈ strokes (hold.take i), s.key ≠ fw.kcRgui := by
    intro s hs
    obtain ⟨input, hin, hstroke⟩ := List.mem_filterMap.mp hs
    cases input with
    | report data hlen => cases hstroke
    | key e =>
      obtain rfl := Option.some.inj hstroke
      exact hhold e (List.mem_of_mem_take hin)
  have hpress (b : Bool) : down fw.kcRgui b (strokes before ++ [stroke gui]) = true := by
    rw [down_concat, hgui, if_pos rfl]
  have hstrokes : strokes (before ++ .key gui :: hold.take i) =
      strokes before ++ [stroke gui] ++ strokes (hold.take i) := by
    rw [List.append_cons, strokes_append, strokes_append]
    rfl
  have hpressed : kb.rguiPressed = true := by
    rw [play_rguiPressed, hstrokes, down_append, hpress, down_of_notMem hheld]
  have hshift : e.rightShift = down kcRsft false (continued fw (powerUp fw memory) before) := by
    rw [hmods _ e _ hsplit, continued_eq, continued_eq, hstrokes, through_append, hpress,
      through_closed hheld, List.append_nil, through_concat, hgui, if_pos (Or.inl rfl), List.append_nil]
  rw [← hshift]
  exact next_held (hhold e (List.mem_of_getElem? hi)) hpressed

theorem hold_decides_late :
    ∃ kb : Keyboard, kb.next plainBuild (keystroke 4 false false) =
      (kb, .typed (tapped plainBuild kb 4) (some false)) := by
  have hmods : ModsFollow plainBuild 0xE5 plainKeyboard
      ([] ++ keystroke 0xE7 true false :: [keystroke 0xE5 true false, keystroke 4 false false]) := by
    intro before e after h
    simp only [List.nil_append, List.cons_eq_append_iff, List.nil_eq_append_iff, keystroke] at h
    rcases h with ⟨rfl, ⟨⟩⟩ | ⟨_, rfl, ⟨rfl, ⟨⟩⟩ | ⟨_, rfl, ⟨rfl, ⟨⟩⟩ | ⟨_, rfl, rfl, ⟨⟩⟩⟩⟩
    · rfl
    · rfl
    · rfl
  exact ⟨_, hold_decides plainBuild (fun _ => 0) 0xE5 [] [keystroke 0xE5 true false, keystroke 4 false false]
    ⟨0xE7, true, false⟩ rfl (by simp [keystroke, plainBuild, readmeBuild]) hmods 1 _ rfl⟩

end KbReg.Protocol
