import KbReg.Cli.Console
import KbReg.Cli.Input

/-! The shortcut of the README: a key selects a register, `kb_reg` without a key copies its standard input
there, and the key types it. -/

namespace KbReg.Cli

open KbReg.Firmware KbReg.Host KbReg.Protocol

def playAll (fw : Build) (kb : Keyboard) : List KeyEvent → Keyboard × List Played
  | [] => (kb, [])
  | e :: es =>
    let (kb, played, _) := processRecordUser fw kb e
    let (kb, rest) := playAll fw kb es
    (kb, played.toList ++ rest)

def chord (fw : Build) (c : UInt16) (shift : Bool) : List KeyEvent :=
  [⟨fw.kcRgui, true, shift⟩, ⟨c, true, shift⟩, ⟨c, false, shift⟩, ⟨fw.kcRgui, false, shift⟩]

def Selectable (fw : Build) (c : UInt16) : Prop :=
  if fw.signedChar then c.toNat < 0x80 ∨ 0xFF80 ≤ c.toNat else c.toNat < 0x100

instance (fw : Build) (c : UInt16) : Decidable (Selectable fw c) :=
  inferInstanceAs (Decidable (if fw.signedChar then c.toNat < 0x80 ∨ 0xFF80 ≤ c.toNat else c.toNat < 0x100))

variable {fw : Build} {kb : Keyboard} {c : UInt16}

lemma signed_toNat (x : UInt8) : (UInt16.ofBitVec (x.toBitVec.signExtend 16)).toNat =
    if x.toNat < 0x80 then x.toNat else x.toNat + 0xFF00 := by
  have hx : x.toNat < 256 := x.toNat_lt
  rw [UInt16.toNat_ofBitVec, BitVec.toNat_signExtend, BitVec.msb_eq_decide, UInt8.toNat_toBitVec,
    BitVec.toNat_setWidth, UInt8.toNat_toBitVec, Nat.mod_eq_of_lt (by omega)]
  change (x.toNat + if decide (128 ≤ x.toNat) = true then 65280 else 0) = _
  by_cases h : x.toNat < 128
  · rw [if_pos h, if_neg (by simpa using h), Nat.add_zero]
  · rw [if_neg h, if_pos (by simpa using h)]

lemma widen_eq_iff : fw.widen c.toUInt8 = c ↔ Selectable fw c := by
  have hc : c.toNat < 65536 := c.toNat_lt
  rw [Build.widen, Selectable, ← UInt16.toNat_inj]
  by_cases hsigned : fw.signedChar
  · rw [if_pos hsigned, if_pos hsigned, signed_toNat, UInt16.toNat_toUInt8]
    split_ifs <;> omega
  · rw [if_neg hsigned, if_neg hsigned, UInt8.toNat_toUInt16, UInt16.toNat_toUInt8]
    omega

lemma chord_selects (hc : c ≠ fw.kcRgui) : playAll fw kb (chord fw c true) =
    ({ kb with kbRegisterNextKeycode := c.toUInt8, rguiPressed := false }, []) := by
  simp [playAll, chord, processRecordUser, hc]

lemma chord_types (hc : c ≠ fw.kcRgui) : playAll fw kb (chord fw c false) =
    ({ kb with rguiPressed := false }, (tapped fw kb c).toList) := by
  have hget : ({ kb with rguiPressed := true } : Keyboard).getRegister c = kb.getRegister c := rfl
  cases hnode : kb.getRegister c with
  | none => simp [playAll, chord, processRecordUser, tapped, hc, hget, hnode]
  | some node => simp [playAll, chord, processRecordUser, tapped, hc, hget, hnode]

def clipboard (input : Bytes) : Options := ⟨false, [], false, 0, 0, [], false, input⟩

lemma chord_types_congr (hc : c ≠ fw.kcRgui) {kb kb' : Keyboard} (h : kb'.stored c = kb.stored c) :
    (playAll fw kb' (chord fw c false)).2 = (playAll fw kb (chord fw c false)).2 := by
  rw [chord_types hc, chord_types hc, tapped_eq hc, tapped_eq hc, h]

/-- The keyboard keeps the selected keycode in a `char`, so the text of the key that selects is typed by
that key if the char widens to its keycode again, and no other store changes what the key types. -/
theorem clipboard_typed (fw : Build) (hid : Hid) (env : Env) (s : Session) (kb : Keyboard) (c : UInt16)
    (stdin : Stdin) (dev : Path) (hc : c ≠ fw.kcRgui) (heof : stdin.ending = .eof)
    (hd : 0 ∉ stdin.delivered) (hinit : hid.init = 0) (hdev : openRaw hid 0 0 = some dev)
    (hname : hid.manufacturer dev ≠ none ∧ hid.product dev ≠ none)
    (hturn : InTurn fw env s (playAll fw kb (chord fw c true)).1 (storeReports stdin.delivered)) :
    ∃ fuel input t, readAll stdin fuel = some input ∧
      main hid env s (clipboard input) = .ok (0, t) ∧
      let kb' := deliver fw (playAll fw kb (chord fw c true)).1 (t.written.drop s.written.length)
      (Selectable fw c → t.console = s.console →
        (playAll fw kb' (chord fw c false)).2 = [.text stdin.delivered]) ∧
      (¬ Selectable fw c →
        (playAll fw kb' (chord fw c false)).2 = (playAll fw kb (chord fw c false)).2) := by
  rw [chord_selects hc] at hturn ⊢
  set selected : Keyboard := { kb with kbRegisterNextKeycode := c.toUInt8, rguiPressed := false }
  set opts := clipboard stdin.delivered
  have hdata : 0 ∉ opts.data := hd
  have hcurrent : selected.current fw = fw.widen c.toUInt8 := rfl
  have hstored : selected.stored c = kb.stored c := rfl
  have hreports : keyReports opts ++ storeReports opts.data = storeReports stdin.delivered := rfl
  have hannounced : opts.announced = [] := rfl
  have hrun := main_runs hid env opts hinit rfl hdev (fun h => h.elim hname.1 hname.2) s
  refine ⟨_, _, _, readAll_eof heof 0, hrun, ?_, ?_⟩
  · intro hsel hsilent
    rw [← hreports] at hturn
    rw [main_console hturn, hannounced, List.append_nil] at hsilent
    have hall := (lines_eq_nil_iff _ _ _).mp (List.append_right_eq_self.mp hsilent)
    have hkept := reports_ok_stored hdata hall
    have htarget : target fw selected opts = c := widen_eq_iff.mpr hsel
    rw [htarget] at hkept
    rw [sends_written, chord_types hc, tapped_stored hc hd hkept]
    rfl
  · intro hsel
    have hne : c ≠ selected.current fw := fun h => hsel (widen_eq_iff.mp (hcurrent ▸ h.symm))
    apply chord_types_congr hc
    rw [sends_written, hreports, stored_after_store, if_neg fun h => hne h.2.2, hstored]

def pasted : Stdin := ⟨[], [104, 105], .eof, by decide⟩

theorem clipboard_typed_pasted :
    ∃ input t, main slice65 (Env.prompt fun _ => 33) Session.fresh (clipboard input) = .ok (0, t) ∧
      (t.console = [] → (playAll plainBuild (deliver plainBuild (playAll plainBuild plainKeyboard
        (chord plainBuild 4 true)).1 t.written) (chord plainBuild 4 false)).2 = [.text [104, 105]]) := by
  have hd : 0 ∉ (clipboard pasted.delivered).data := by decide
  have hmet : AllOk plainBuild (playAll plainBuild plainKeyboard (chord plainBuild 4 true)).1 _ :=
    (reports_ok_iff hd _ 0).mpr ⟨fun _ _ => prompt_write _, by decide, rfl, fun _ => rfl⟩
  have hturn : InTurn plainBuild (Env.prompt fun _ => 33) Session.fresh
      (playAll plainBuild plainKeyboard (chord plainBuild 4 true)).1 (storeReports pasted.delivered) := by
    intro i a ha
    obtain rfl := hmet a (List.mem_of_getElem? ha)
    exact promptOk_brings
  obtain ⟨_, input, t, -, hmain, htyped, -⟩ := clipboard_typed plainBuild slice65 (Env.prompt fun _ => 33)
    Session.fresh plainKeyboard 4 pasted 1 (by decide) rfl hd rfl rfl
      ⟨Option.some_ne_none _, Option.some_ne_none _⟩ hturn
  exact ⟨input, t, hmain, htyped (by decide)⟩

end KbReg.Cli
