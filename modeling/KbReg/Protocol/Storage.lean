import KbReg.Protocol.Silence
import KbReg.Protocol.Strokes

namespace KbReg.Protocol

open KbReg.Firmware KbReg.Host KbReg.Pieces KbReg.Transcripts

lemma call_report_length {calls : List Call} {report : Bytes} (h : report ∈ calls.flatMap Call.reports) :
    report.tail.length = 32 := by
  have hlen : report.length = 33 := by
    obtain ⟨call, -, hr⟩ := List.mem_flatMap.mp h
    cases call with
    | setKey key =>
      obtain rfl := List.mem_singleton.mp hr
      rfl
    | storeData data =>
      rw [Call.reports, storeReports, List.mem_cons, List.mem_append, List.mem_map,
        List.mem_singleton] at hr
      rcases hr with rfl | ⟨piece, hp, rfl⟩ | rfl
      · exact frame_length _ (List.length_take_le 31 data)
      · exact frame_length _ (length_le_of_mem (List.mem_of_mem_tail hp))
      · rfl
  rw [List.length_tail, hlen]

def inputs (calls : List Call) : List Input :=
  (calls.flatMap Call.reports).pmap (fun report h => .report report.tail h) fun _ h => call_report_length h

def tap (fw : Build) (c : UInt16) : List Input :=
  [.key ⟨fw.kcRgui, true, false⟩, .key ⟨c, true, false⟩, .key ⟨c, false, false⟩]

variable {fw : Build} {kb : Keyboard} {c : UInt16}

lemma play_reports (kb : Keyboard) (n : ℕ) {reports : List Bytes}
    (h : ∀ report ∈ reports, report.tail.length = 32) :
    play (Keyboard.next fw) kb (reports.pmap (fun report h => .report report.tail h) h) =
      (deliver fw kb (stamp sure n reports),
        (answers fw kb (stamp sure n reports)).map Output.response) := by
  induction reports generalizing kb n with
  | nil => rfl
  | cons report reports ih =>
    rw [List.pmap, play, ih _ (n + 1)]
    rfl

lemma play_inputs (kb : Keyboard) (calls : List Call) : play (Keyboard.next fw) kb (inputs calls) =
    (deliver fw kb (stamp sure 0 (calls.flatMap Call.reports)),
      (answers fw kb (stamp sure 0 (calls.flatMap Call.reports))).map Output.response) :=
  play_reports kb 0 _

lemma lastStored_mem {kc : UInt8 → UInt16} {current : UInt16} {calls : List Call} {data : Bytes}
    (h : lastStored kc c current calls = some data) : .storeData data ∈ calls := by
  induction calls generalizing current with
  | nil => cases h
  | cons call calls ih =>
    cases call with
    | setKey key => exact List.mem_cons_of_mem _ (ih h)
    | storeData text =>
      rw [lastStored] at h
      cases hlater : lastStored kc c current calls with
      | some later =>
        rw [hlater, Option.some_or] at h
        rw [← h] at ih
        exact List.mem_cons_of_mem _ (ih hlater)
      | none =>
        rw [hlater, Option.none_or] at h
        split_ifs at h
        rw [Option.some.inj h]
        exact List.mem_cons_self

lemma tapped_after_calls (hc : c ≠ fw.kcRgui) {calls : List Call}
    (hd : ∀ data, .storeData data ∈ calls → 0 ∉ data) (n : ℕ)
    (h : AllOk fw kb (stamp sure n (calls.flatMap Call.reports))) :
    tapped fw (deliver fw kb (stamp sure n (calls.flatMap Call.reports))) c =
      (lastStored (keycodeOf fw) c (kb.current fw) calls).elim (tapped fw kb c)
        fun data => some (.text data) := by
  have hstored := congrFun (congrArg RegisterMap.text (all_ok_registers hd h)) c
  rw [run_text] at hstored
  change Keyboard.stored _ c = ((lastStored _ c (kb.current fw) calls).map _).or (kb.stored c) at hstored
  cases hlast : lastStored (keycodeOf fw) c (kb.current fw) calls with
  | some data =>
    rw [hlast, Option.map_some, Option.some_or] at hstored
    rw [tapped_stored hc (hd data (lastStored_mem hlast)) hstored]
    rfl
  | none =>
    rw [hlast, Option.map_none, Option.none_or] at hstored
    rw [tapped_eq hc, tapped_eq hc, hstored]
    rfl

lemma play_tap (hc : c ≠ fw.kcRgui) (kb : Keyboard) : play (Keyboard.next fw) kb (tap fw c) =
    ({ kb with rguiPressed := true },
      [.typed none (some false), .typed none (some false), .typed (tapped fw kb c) (some false)]) := by
  have hgui : kb.next fw (.key ⟨fw.kcRgui, true, false⟩) =
      ({ kb with rguiPressed := true }, .typed none (some false)) := by
    simp [Keyboard.next, processRecordUser]
  have hpressed : ({ kb with rguiPressed := true } : Keyboard).rguiPressed = true := rfl
  have htapped : tapped fw { kb with rguiPressed := true } c = tapped fw kb c := rfl
  simp only [tap, play, hgui, next_held (e := ⟨c, true, false⟩) hc hpressed,
    next_held (e := ⟨c, false, false⟩) hc hpressed, htapped, if_true, Bool.false_eq_true, if_false]

lemma allOk_of_outputs {ws : List Written}
    (h : ∀ o ∈ (answers fw kb ws).map Output.response, o = .response (some .ok)) : AllOk fw kb ws := by
  intro a ha
  exact Output.response.inj (h _ (List.mem_map_of_mem ha))

theorem calls_reach_heap {A : Type} [DecidableEq A] (fw : Build) (mem : Allocator A) (size : ℕ)
    (memory : ℕ → UInt8) (es : List Input) (calls : List Call) (c : UInt16) (chip : Chip A)
    (os : List Output) (hc : c ≠ fw.kcRgui) (hd : ∀ data, .storeData data ∈ calls → 0 ∉ data)
    (h : run (Chip.step fw mem size) (Chip.powerUp fw memory) (es ++ inputs calls) = some (chip, os))
    (hok : ∀ o ∈ os.drop es.length, o = .response (some .ok)) :
    let kb := (play (Keyboard.next fw) (powerUp fw memory) es).1
    ∃ chip', run (Chip.step fw mem size) chip (tap fw c) = some (chip',
      [.typed none (some false), .typed none (some false),
        .typed ((lastStored (keycodeOf fw) c (kb.current fw) calls).elim (tapped fw kb c)
          fun data => some (.text data)) (some false)]) := by
  intro kb
  have hos := (chip_stands h).1
  rw [play_append, play_inputs] at hos
  rw [hos, List.drop_left' (play_length _ _)] at hok
  have htyped := tapped_after_calls hc hd 0 (allOk_of_outputs hok)
  have hbounds : InBounds fw
      (play (Keyboard.next fw) (powerUp fw memory) (es ++ inputs calls ++ tap fw c)).1 := by
    rw [play_append, play_tap hc]
    exact chip_inBounds h
  obtain ⟨chip', hrun⟩ := chip_goes_on h hbounds
  rw [play_append, play_inputs, play_tap hc, htyped] at hrun
  exact ⟨chip', hrun⟩

theorem calls_reach_heap_greeting : ∃ chip os chip',
    run (Chip.step plainBuild countingMemory 16) (Chip.powerUp plainBuild fun _ => 0)
      (inputs [.setKey [97], .storeData [104, 105]]) = some (chip, os) ∧
    run (Chip.step plainBuild countingMemory 16) chip (tap plainBuild 97) = some (chip',
      [.typed none (some false), .typed none (some false), .typed (some (.text [104, 105])) (some false)]) := by
  obtain ⟨chip', htyped⟩ := calls_reach_heap plainBuild countingMemory 16 (fun _ => 0) []
    [.setKey [97], .storeData [104, 105]] 97 _ _ (by decide) (by simp) rfl (by decide)
  exact ⟨_, _, chip', rfl, htyped⟩

end KbReg.Protocol
