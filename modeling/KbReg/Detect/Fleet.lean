import KbReg.Detect.Daemon
import KbReg.Detect.Loading
import KbReg.Firmware.Execution
import KbReg.Protocol.Playback
import KbReg.Protocol.Sharing

/-! The keyboards behind `kb_detect`, with each report of a transfer among everything else that happens:
devices come and go, and keys are pressed. -/

namespace KbReg.Detect

open KbReg.Firmware KbReg.Host KbReg.Protocol KbReg.Overlay

structure Fleet where
  world : World
  keyboards : ℕ → Keyboard
  rest : List Bytes

inductive Incident
  | daemon (h : Happening)
  | report
  | key (serial : ℕ) (e : KeyEvent)

section Step

variable (fw : Build) (tbl : Table) (memory : ℕ → ℕ → UInt8)

def Happening.opens : Happening → Bool
  | .visit _ | .handle _ => true
  | _ => false

def Happening.closes : Happening → Bool
  | .finish => true
  | _ => false

def plugged (w : World) (keyboards : ℕ → Keyboard) : Happening → ℕ → Keyboard
  | .attach _ => Function.update keyboards w.serials (powerUp fw (memory w.serials))
  | _ => keyboards

def Fleet.daemonStep (f : Fleet) (h : Happening) : Option Fleet :=
  -- `configure_keyboard` closes the device after its last report
  if h.closes ∧ f.rest ≠ [] then none
  else (f.world.step tbl h).map fun w =>
    { world := w
      keyboards := plugged fw memory f.world f.keyboards h
      rest := if h.opens then (if w.target.isSome then tableReports tbl else []) else f.rest }

def World.writes (w : World) (target : Plug) : ℤ := if target ∈ w.attached then 33 else -1

def Fleet.step (f : Fleet) : Incident → Option Fleet
  | .daemon h => f.daemonStep fw tbl memory h
  | .report =>
    match f.rest, f.world.target with
    | report :: rest, some target => some
      { f with
        keyboards := Function.update f.keyboards target.serial
          (arrive fw (f.keyboards target.serial) ⟨report, f.world.writes target⟩)
        rest := rest }
    | _, _ => none
  | .key serial e => some
    { f with keyboards := Function.update f.keyboards serial (processRecordUser fw (f.keyboards serial) e).1 }

def idleFleet : Fleet := ⟨launch, fun serial => powerUp fw (memory serial), []⟩

def Fleet.Granted (f : Fleet) : Incident → Prop
  | .daemon h => Detect.Granted tbl f.world h
  | _ => True

def Orderly (f : Fleet) : Incident → Prop
  | .daemon h => InTime tbl f.world h
  | .report => True
  | .key serial e => ∀ target, f.world.target = some target → target.serial = serial →
    (processRecordUser fw (f.keyboards serial) e).1.kbRegisterNextKeycode =
      (f.keyboards serial).kbRegisterNextKeycode

end Step

section Texts

variable (fw : Build) (pairs : List (Bytes × Bytes))

def Own (kb : Keyboard) : Prop :=
  ∀ c, kb.stored c = none ∨
    ∃ pair ∈ pairs, keycodeOf fw (pair.1.headD 0) = c ∧ kb.stored c = some (pair.2 ++ [0])

def Loaded (kb : Keyboard) : Prop :=
  ∀ c, kb.stored c = (lastEntry (keycodeOf fw) c pairs).map fun pair => pair.2 ++ [0]

variable {fw pairs} {kb kb' : Keyboard}

lemma own_congr (h : Own fw pairs kb) (hs : kb'.stored = kb.stored) : Own fw pairs kb' := by
  intro c
  rw [hs]
  exact h c

lemma own_powerUp (memory : ℕ → UInt8) : Own fw pairs (powerUp fw memory) := fun _ => Or.inl rfl

lemma own_of_ownText (h : Own fw pairs kb) (ht : ∀ c, OwnText fw kb pairs kb' c) : Own fw pairs kb' := by
  intro c
  rcases ht c with hc | hc
  · rw [hc]
    exact h c
  · exact Or.inr hc

lemma lastEntry_none {c : UInt16} (h : lastEntry (keycodeOf fw) c pairs = none) :
    ∀ pair ∈ pairs, keycodeOf fw (pair.1.headD 0) ≠ c := by
  intro pair hp
  have hnot := List.find?_eq_none.mp h pair (List.mem_reverse.mpr hp)
  simpa using hnot

lemma loaded_of_overlay (h : Own fw pairs kb)
    (hs : kb'.stored = overlay kb.stored (entries (keycodeOf fw) pairs)) : Loaded fw pairs kb' := by
  intro c
  rw [hs, overlay_apply, last_entries]
  cases hlast : lastEntry (keycodeOf fw) c pairs with
  | some pair => rfl
  | none =>
    rcases h c with hc | ⟨pair, hp, hkc, _⟩
    · exact hc
    · exact absurd hkc (lastEntry_none hlast pair hp)

end Texts

section Transfer

variable {fw : Build}

lemma arrive_rgui (kb : Keyboard) (b : Bool) (w : Written) :
    arrive fw { kb with rguiPressed := b } w = { arrive fw kb w with rguiPressed := b } := by
  rw [arrive, arrive]
  split_ifs
  · rfl
  · exact receive_rgui fw kb b _

def Receives (fw : Build) (kb : Keyboard) (sent : List Bytes) (kb' : Keyboard) : Prop :=
  ∃ b, kb' = { deliver fw kb (stamp (Env.prompt fun _ => 33) 0 sent) with rguiPressed := b }

variable {kb kb' : Keyboard} {sent : List Bytes}

lemma receives_nil (kb : Keyboard) : Receives fw kb [] kb := ⟨kb.rguiPressed, rfl⟩

lemma Receives.stored (h : Receives fw kb sent kb') :
    kb'.stored = (deliver fw kb (stamp (Env.prompt fun _ => 33) 0 sent)).stored := by
  obtain ⟨b, rfl⟩ := h
  rfl

lemma Receives.report (h : Receives fw kb sent kb') (report : Bytes) :
    Receives fw kb (sent ++ [report]) (arrive fw kb' ⟨report, 33⟩) := by
  obtain ⟨b, rfl⟩ := h
  refine ⟨b, ?_⟩
  rw [arrive_rgui, stamp_append, deliver_append]
  rfl

lemma key_rgui {e : KeyEvent} (h : (processRecordUser fw kb e).1.kbRegisterNextKeycode =
    kb.kbRegisterNextKeycode) : ∃ b, (processRecordUser fw kb e).1 = { kb with rguiPressed := b } := by
  simp only [processRecordUser] at h ⊢
  split_ifs at h ⊢
  · exact ⟨e.pressed, rfl⟩
  · exact ⟨kb.rguiPressed, rfl⟩
  · have hkey : e.keycode.toUInt8 = kb.kbRegisterNextKeycode := h
    refine ⟨kb.rguiPressed, ?_⟩
    rw [hkey]
  · refine ⟨kb.rguiPressed, ?_⟩
    split <;> rfl
  · exact ⟨kb.rguiPressed, rfl⟩

lemma Receives.key (h : Receives fw kb sent kb') {e : KeyEvent}
    (he : (processRecordUser fw kb' e).1.kbRegisterNextKeycode = kb'.kbRegisterNextKeycode) :
    Receives fw kb sent (processRecordUser fw kb' e).1 := by
  obtain ⟨b, rfl⟩ := h
  obtain ⟨b', hb⟩ := key_rgui he
  exact ⟨b', hb⟩

variable {tbl : Table} {pairs : List (Bytes × Bytes)}

lemma tableReports_eq (hpairs : keyTexts tbl = some pairs) :
    tableReports tbl = (tableCalls pairs).flatMap Call.reports := by
  rw [tableReports, hpairs]
  rfl

lemma sound_of_fits (htexts : ∀ pair ∈ pairs, Fits fw pair.2) (c : UInt16) (n : ℕ) (current : UInt16) :
    Sound fw (Env.prompt fun _ => 33) c n current pairs := by
  induction pairs generalizing n current with
  | nil => trivial
  | cons pair pairs ih =>
    obtain ⟨htext, hfits⟩ := htexts pair List.mem_cons_self
    have hselection : selection fw (Env.prompt fun _ => 33) n current pair.1 =
        keycodeOf fw (pair.1.headD 0) := if_neg (not_lt.mpr (prompt_write n))
    refine ⟨fun _ hc => ?_, ih (fun q hq => htexts q (List.mem_cons_of_mem _ hq)) _ _⟩
    exact ⟨hselection.symm.trans hc, htext, hfits, prompt_write _, fun i _ => prompt_write _⟩

lemma Receives.own (htexts : ∀ pair ∈ pairs, Fits fw pair.2) (hpairs : keyTexts tbl = some pairs)
    {rest : List Bytes} (hsent : sent ++ rest = tableReports tbl) (hkb : Own fw pairs kb)
    (h : Receives fw kb sent kb') : Own fw pairs kb' := by
  apply own_congr _ h.stored
  apply own_of_ownText hkb
  have hrun {ws : List Written} (hw : ws <+: stamp (Env.prompt fun _ => 33) 0 (pairs.flatMap pairReports)) :
      ∀ c, OwnText fw kb pairs (deliver fw kb ws) c :=
    fun c => own_text_run 0 kb (sound_of_fits htexts c 0 _) hw
  have hprefix : stamp (Env.prompt fun _ => 33) 0 sent <+:
      stamp (Env.prompt fun _ => 33) 0 (pairs.flatMap pairReports ++ [frame msgKey ['.'.toUInt8]]) := by
    rw [← tableCalls_reports, ← tableReports_eq hpairs, ← hsent, stamp_append]
    exact List.prefix_append _ _
  rw [stamp_append] at hprefix
  rcases List.prefix_concat_iff.mp hprefix with hall | hw
  · rw [hall, deliver_append]
    intro c
    rw [OwnText, deliver_stored]
    · exact hrun (List.prefix_refl _) c
    · intro w hw
      rw [isFinish, List.mem_singleton.mp (report_of_mem_stamp hw)]
      exact key_ne_finish
  · exact hrun hw

lemma Receives.loaded (hkeys : ∀ pair ∈ pairs, pair.1 ≠ []) (htexts : ∀ pair ∈ pairs, Fits fw pair.2)
    (hm : ∀ n, fw.malloc n = true) (hpairs : keyTexts tbl = some pairs)
    (hsent : sent = tableReports tbl) (hkb : Own fw pairs kb) (h : Receives fw kb sent kb') :
    Loaded fw pairs kb' := by
  apply loaded_of_overlay hkb
  rw [h.stored, hsent, tableReports_eq hpairs]
  have hcalls := deliver_calls prompt_write hm kb 0 (tableCalls_fits hkeys htexts)
  rw [run_table] at hcalls
  exact congrArg RegisterMap.text hcalls

end Transfer

section World

inductive Moves (w : World) : Happening → World → Prop
  | attached (device : UsbDevice) : Moves w (.attach device) (w.plugIn device)
  | detached (serial : ℕ) :
    Moves w (.detach serial) { w with attached := w.attached.filter (·.serial ≠ serial) }
  | passed (h : Happening) (w' : World) (hh : ∀ device, h ≠ .attach device)
      (ha : w'.attached = w.attached) (hc : w'.configured = w.configured)
      (hn : w'.serials = w.serials) (hclosed : w.target = none) (ht : w'.target = none) : Moves w h w'
  | opened (h : Happening) (w' : World) (target : Plug) (hh : h.opens)
      (ha : w'.attached = w.attached) (hc : w'.configured = w.configured)
      (hn : w'.serials = w.serials) (hclosed : w.target = none) (ht : w'.target = some target)
      (hm : target ∈ w.attached) : Moves w h w'
  | finished (w' : World) (target : Plug) (ha : w'.attached = w.attached)
      (hc : w'.configured = w.configured ++ [target.serial]) (hn : w'.serials = w.serials)
      (hopen : w.target = some target) (ht : w'.target = none) : Moves w .finish w'

variable {tbl : Table} {w w' : World} {h : Happening}

lemma serve_mem {hid : Hid} {attached : List Plug} {device : UsbDevice} {target : Plug}
    (ho : serve tbl hid attached device = .ok (some target)) : target ∈ attached := by
  rw [serve] at ho
  split at ho
  · cases ho
  · cases ho
  · simp only [openPlug] at ho
    split at ho
    · cases ho
    · obtain ⟨path, _, hfind⟩ := Option.bind_eq_some_iff.mp (Except.ok.inj ho)
      exact List.mem_of_find?_eq_some hfind

lemma moves_visit {hid : Hid} (hs : w.step tbl (.visit hid) = some w') : Moves w (.visit hid) w' := by
  obtain ⟨plug, todo, hphase, hserved⟩ := visit_cases hs
  have hclosed : w.target = none := by simp only [World.target, hphase]
  cases hserved with
  | gone _ => exact .passed _ _ (by simp) rfl rfl rfl hclosed rfl
  | idle _ _ => exact .passed _ _ (by simp) rfl rfl rfl hclosed rfl
  | busy target _ ho => exact .opened _ _ target rfl rfl rfl rfl hclosed rfl (serve_mem ho)

lemma moves_handle {hid : Hid} (hs : w.step tbl (.handle hid) = some w') : Moves w (.handle hid) w' := by
  obtain ⟨plug, pending, hphase, hpending, hserved⟩ := handle_cases hs
  have hclosed : w.target = none := by simp only [World.target, hphase]
  cases hserved with
  | gone _ => exact .passed _ _ (by simp) rfl rfl rfl hclosed hclosed
  | idle _ _ => exact .passed _ _ (by simp) rfl rfl rfl hclosed hclosed
  | busy target _ ho => exact .opened _ _ target rfl rfl rfl rfl hclosed rfl (serve_mem ho)

lemma moves_of_step (hs : w.step tbl h = some w') : Moves w h w' := by
  cases h with
  | attach device =>
    obtain rfl := Option.some.inj hs
    exact .attached device
  | detach serial =>
    obtain rfl := Option.some.inj hs
    exact .detached serial
  | snapshot =>
    simp only [World.step] at hs
    split at hs
    · next hphase =>
      obtain rfl := Option.some.inj hs
      exact .passed _ _ (by simp) rfl rfl rfl (by simp only [World.target, hphase]) rfl
    · cases hs
  | visit hid => exact moves_visit hs
  | register =>
    simp only [World.step] at hs
    split at hs
    · next hphase =>
      obtain rfl := Option.some.inj hs
      exact .passed _ _ (by simp) rfl rfl rfl (by simp only [World.target, hphase]) rfl
    · cases hs
  | handle hid => exact moves_handle hs
  | finish =>
    simp only [World.step] at hs
    split at hs
    · next target todo hphase =>
      obtain rfl := Option.some.inj hs
      exact .finished _ target rfl rfl rfl (by simp only [World.target, hphase]) rfl
    · next target hphase =>
      obtain rfl := Option.some.inj hs
      exact .finished _ target rfl rfl rfl (by simp only [World.target, hphase]) rfl
    · cases hs

structure Numbered (w : World) : Prop where
  attached : ∀ p ∈ w.attached, p.serial < w.serials
  configured : ∀ serial ∈ w.configured, serial < w.serials
  target : ∀ t, w.target = some t → t.serial < w.serials
  distinct : ∀ p ∈ w.attached, ∀ q, q ∈ w.attached ∨ w.target = some q → q.serial = p.serial → q = p

lemma Numbered.keep (hw : Numbered w) (ha : w'.attached = w.attached) (hn : w'.serials = w.serials)
    (hc : ∀ serial ∈ w'.configured, serial < w.serials)
    (ht : ∀ t, w'.target = some t → t ∈ w.attached ∨ w.target = some t) : Numbered w' where
  attached p hp := hn ▸ hw.attached p (ha ▸ hp)
  configured serial hm := hn ▸ hc serial hm
  target t h := hn ▸ (ht t h).elim (hw.attached t) (hw.target t)
  distinct p hp q hq := by
    rw [ha] at hp hq
    exact hw.distinct p hp q (hq.elim Or.inl (ht q))

lemma numbered_step (hw : Numbered w) (hs : Moves w h w') : Numbered w' := by
  cases hs with
  | attached device =>
    have hnew (p : Plug) (hp : p ∈ (w.plugIn device).attached) : p.serial < w.serials + 1 := by
      rcases plugIn_attached hp with hp | rfl
      · exact Nat.lt_succ_of_lt (hw.attached p hp)
      · exact Nat.lt_succ_self _
    refine ⟨hnew, fun serial hm => Nat.lt_succ_of_lt (hw.configured serial hm),
      fun t ht => Nat.lt_succ_of_lt (hw.target t ht), ?_⟩
    intro p hp q hq he
    have hold (q : Plug) (hq : q ∈ w.attached ∨ w.target = some q) : q.serial < w.serials :=
      hq.elim (hw.attached q) (hw.target q)
    have hq' : (q ∈ w.attached ∨ w.target = some q) ∨ q = ⟨w.serials, device⟩ := by
      rcases hq with hq | hq
      · exact (plugIn_attached hq).imp_left Or.inl
      · exact Or.inl (Or.inr hq)
    rcases plugIn_attached hp with hp | rfl
    · rcases hq' with hq | rfl
      · exact hw.distinct p hp q hq he
      · exact absurd he (hw.attached p hp).ne'
    · rcases hq' with hq | rfl
      · exact absurd he (hold q hq).ne
      · rfl
  | detached serial =>
    refine ⟨fun p hp => hw.attached p (List.mem_of_mem_filter hp), hw.configured, hw.target, ?_⟩
    intro p hp q hq he
    exact hw.distinct p (List.mem_of_mem_filter hp) q (hq.imp_left List.mem_of_mem_filter) he
  | passed _ _ _ ha hc hn _ ht =>
    apply hw.keep ha hn
    · rw [hc]
      exact hw.configured
    · intro t h
      rw [ht] at h
      cases h
  | opened _ _ target _ ha hc hn _ ht hm =>
    apply hw.keep ha hn
    · rw [hc]
      exact hw.configured
    · intro t h
      rw [ht] at h
      exact Or.inl (Option.some.inj h ▸ hm)
  | finished _ target ha hc hn hopen ht =>
    apply hw.keep ha hn
    · rw [hc]
      intro serial hm
      rcases List.mem_append.mp hm with hm | hm
      · exact hw.configured serial hm
      · rw [List.mem_singleton.mp hm]
        exact hw.target target hopen
    · intro t h
      rw [ht] at h
      cases h

lemma numbered_launch : Numbered launch := by
  constructor <;> simp [launch, World.target]

end World

section Run

variable (fw : Build) (tbl : Table) (pairs : List (Bytes × Bytes))

structure Supplied (f : Fleet) : Prop where
  covered : Covered tbl f.world
  numbered : Numbered f.world
  closed : f.world.target = none → f.rest = []
  own : ∀ p ∈ f.world.attached, Own fw pairs (f.keyboards p.serial)
  loaded : ∀ p ∈ f.world.attached, p.serial ∈ f.world.configured → f.world.target ≠ some p →
    Loaded fw pairs (f.keyboards p.serial)
  sending : ∀ t ∈ f.world.attached, f.world.target = some t → ∃ kb sent,
    Own fw pairs kb ∧ sent ++ f.rest = tableReports tbl ∧ Receives fw kb sent (f.keyboards t.serial)

variable {fw tbl pairs} {memory : ℕ → ℕ → UInt8} {f f' : Fleet} {w : World}

lemma supplied_idle : Supplied fw tbl pairs (idleFleet fw memory) where
  covered := covered_launch
  numbered := numbered_launch
  closed _ := rfl
  own _ _ := own_powerUp _
  loaded p hp := by cases hp
  sending t ht := by cases ht

lemma loaded_congr {kb kb' : Keyboard} (h : Loaded fw pairs kb) (hs : kb'.stored = kb.stored) :
    Loaded fw pairs kb' := by
  intro c
  rw [hs]
  exact h c

lemma supplied_attached (hf : Supplied fw tbl pairs f) (device : UsbDevice)
    (hcovered : Covered tbl (f.world.plugIn device)) :
    Supplied fw tbl pairs
      ⟨f.world.plugIn device,
        Function.update f.keyboards f.world.serials (powerUp fw (memory f.world.serials)), f.rest⟩ := by
  have hold (p : Plug) (hp : p ∈ f.world.attached) : Function.update f.keyboards f.world.serials
      (powerUp fw (memory f.world.serials)) p.serial = f.keyboards p.serial :=
    Function.update_of_ne (hf.numbered.attached p hp).ne _ _
  refine ⟨hcovered, numbered_step hf.numbered (.attached device), hf.closed, ?_, ?_, ?_⟩
  · intro p hp
    rcases plugIn_attached hp with hp | rfl
    · simp only [hold p hp]
      exact hf.own p hp
    · simp only [Function.update_self]
      exact own_powerUp _
  · intro p hp hc ht
    rcases plugIn_attached hp with hp | rfl
    · simp only [hold p hp]
      exact hf.loaded p hp hc ht
    · exact absurd (hf.numbered.configured _ hc) (lt_irrefl _)
  · intro t hm ht
    rcases plugIn_attached hm with hm | rfl
    · simp only [hold t hm]
      exact hf.sending t hm ht
    · exact absurd (hf.numbered.target _ ht) (lt_irrefl _)

lemma supplied_detached (hf : Supplied fw tbl pairs f) (serial : ℕ)
    (hcovered : Covered tbl { f.world with attached := f.world.attached.filter (·.serial ≠ serial) }) :
    Supplied fw tbl pairs
      ⟨{ f.world with attached := f.world.attached.filter (·.serial ≠ serial) }, f.keyboards, f.rest⟩ where
  covered := hcovered
  numbered := numbered_step hf.numbered (.detached serial)
  closed := hf.closed
  own p hp := hf.own p (List.mem_of_mem_filter hp)
  loaded p hp := hf.loaded p (List.mem_of_mem_filter hp)
  sending t ht := hf.sending t (List.mem_of_mem_filter ht)

lemma supplied_passed (hf : Supplied fw tbl pairs f) {h : Happening} (hs : Moves f.world h w)
    (ha : w.attached = f.world.attached) (hc : w.configured = f.world.configured)
    (hclosed : f.world.target = none) (ht : w.target = none) (hcovered : Covered tbl w) :
    Supplied fw tbl pairs ⟨w, f.keyboards, []⟩ where
  covered := hcovered
  numbered := numbered_step hf.numbered hs
  closed _ := rfl
  own p hp := hf.own p (ha ▸ hp)
  loaded p hp hm _ := hf.loaded p (ha ▸ hp) (hc ▸ hm) (by simp [hclosed])
  sending t _ h := by
    rw [ht] at h
    cases h

lemma supplied_opened (hf : Supplied fw tbl pairs f) {h : Happening} (hs : Moves f.world h w)
    (ha : w.attached = f.world.attached) (hc : w.configured = f.world.configured)
    (hclosed : f.world.target = none) {target : Plug} (ht : w.target = some target)
    (hcovered : Covered tbl w) : Supplied fw tbl pairs ⟨w, f.keyboards, tableReports tbl⟩ where
  covered := hcovered
  numbered := numbered_step hf.numbered hs
  closed h := by
    rw [ht] at h
    cases h
  own p hp := hf.own p (ha ▸ hp)
  loaded p hp hm _ := hf.loaded p (ha ▸ hp) (hc ▸ hm) (by simp [hclosed])
  sending t hm _ := ⟨f.keyboards t.serial, [], hf.own t (ha ▸ hm), rfl, receives_nil _⟩

structure Transferable (fw : Build) (tbl : Table) (pairs : List (Bytes × Bytes)) : Prop where
  texts : keyTexts tbl = some pairs
  keys : ∀ pair ∈ pairs, pair.1 ≠ []
  fits : ∀ pair ∈ pairs, Fits fw pair.2
  memory : ∀ n, fw.malloc n = true

lemma supplied_finished (hp : Transferable fw tbl pairs) (hf : Supplied fw tbl pairs f)
    (hs : Moves f.world .finish w) {target : Plug} (ha : w.attached = f.world.attached)
    (hc : w.configured = f.world.configured ++ [target.serial]) (hopen : f.world.target = some target)
    (ht : w.target = none) (hrest : f.rest = []) (hcovered : Covered tbl w) :
    Supplied fw tbl pairs ⟨w, f.keyboards, []⟩ where
  covered := hcovered
  numbered := numbered_step hf.numbered hs
  closed _ := rfl
  own p hm := hf.own p (ha ▸ hm)
  loaded p hm hconf _ := by
    rw [ha] at hm
    by_cases he : target = p
    · subst he
      obtain ⟨kb, sent, hkb, hsent, hreceives⟩ := hf.sending target hm hopen
      rw [hrest, List.append_nil] at hsent
      exact hreceives.loaded hp.keys hp.fits hp.memory hp.texts hsent hkb
    · apply hf.loaded p hm
      · rw [hc] at hconf
        rcases List.mem_append.mp hconf with hconf | hconf
        · exact hconf
        · have hserial := List.mem_singleton.mp hconf
          exact absurd (hf.numbered.distinct p hm target (Or.inr hopen) hserial.symm) he
      · rw [hopen]
        exact fun h => he (Option.some.inj h)
  sending t _ h := by
    rw [ht] at h
    cases h

lemma supplied_daemon (hp : Transferable fw tbl pairs) (hf : Supplied fw tbl pairs f) {h : Happening}
    (hallowed : Detect.Granted tbl f.world h ∧ InTime tbl f.world h)
    (hs : f.daemonStep fw tbl memory h = some f') : Supplied fw tbl pairs f' := by
  by_cases hguard : h.closes ∧ f.rest ≠ []
  · rw [Fleet.daemonStep, if_pos hguard] at hs
    cases hs
  rw [Fleet.daemonStep, if_neg hguard] at hs
  obtain ⟨w, hstep, rfl⟩ := Option.map_eq_some_iff.mp hs
  have hcovered := covered_step hf.covered hallowed hstep
  have hmoves := moves_of_step hstep
  cases hmoves with
  | attached device => exact supplied_attached hf device hcovered
  | detached serial => exact supplied_detached hf serial hcovered
  | passed _ _ hh ha hc hn hclosed ht =>
    have hkeyboards : plugged fw memory f.world f.keyboards h = f.keyboards := by
      cases h with
      | attach device => exact absurd rfl (hh device)
      | _ => rfl
    have hpassed := supplied_passed hf (.passed h w hh ha hc hn hclosed ht) ha hc hclosed ht hcovered
    simpa [hkeyboards, ht, hf.closed hclosed] using hpassed
  | opened _ _ target hh ha hc hn hclosed ht hm =>
    have hkeyboards : plugged fw memory f.world f.keyboards h = f.keyboards := by
      cases h with
      | attach device => cases hh
      | _ => rfl
    have hopened := supplied_opened hf (.opened h w target hh ha hc hn hclosed ht hm) ha hc hclosed ht
      hcovered
    simpa [hkeyboards, hh, ht] using hopened
  | finished _ target ha hc hn hopen ht =>
    have hrest : f.rest = [] := by simpa [Happening.closes] using hguard
    have hfinished := supplied_finished hp hf (.finished w target ha hc hn hopen ht) ha hc hopen ht hrest
      hcovered
    simpa [plugged, Happening.opens, hrest] using hfinished

lemma supplied_report (hp : Transferable fw tbl pairs) (hf : Supplied fw tbl pairs f) {report : Bytes}
    {rest : List Bytes} (hrest : f.rest = report :: rest) {target : Plug}
    (hopen : f.world.target = some target) :
    Supplied fw tbl pairs
      { f with
        keyboards := Function.update f.keyboards target.serial
          (arrive fw (f.keyboards target.serial) ⟨report, f.world.writes target⟩)
        rest := rest } := by
  have hother (p : Plug) (hm : p ∈ f.world.attached) (hne : target ≠ p) :
      Function.update f.keyboards target.serial
        (arrive fw (f.keyboards target.serial) ⟨report, f.world.writes target⟩) p.serial =
          f.keyboards p.serial := by
    apply Function.update_of_ne
    intro he
    exact hne (hf.numbered.distinct p hm target (Or.inr hopen) he.symm)
  have hown (hm : target ∈ f.world.attached) : ∃ kb sent, Own fw pairs kb ∧
      sent ++ rest = tableReports tbl ∧
        Receives fw kb sent (arrive fw (f.keyboards target.serial) ⟨report, f.world.writes target⟩) := by
    obtain ⟨kb, sent, hkb, hsent, hreceives⟩ := hf.sending target hm hopen
    rw [hrest] at hsent
    refine ⟨kb, sent ++ [report], hkb, by simpa using hsent, ?_⟩
    rw [World.writes, if_pos hm]
    exact hreceives.report report
  refine ⟨hf.covered, hf.numbered, fun h => (nomatch hopen.symm.trans h), ?_, ?_, ?_⟩
  · intro p hm
    by_cases he : target = p
    · subst he
      obtain ⟨kb, sent, hkb, hsent, hreceives⟩ := hown hm
      simp only [Function.update_self]
      exact hreceives.own hp.fits hp.texts hsent hkb
    · simp only [hother p hm he]
      exact hf.own p hm
  · intro p hm hc ht
    have he : target ≠ p := fun he => ht (he ▸ hopen)
    simp only [hother p hm he]
    exact hf.loaded p hm hc ht
  · intro t hm ht
    obtain rfl := Option.some.inj (hopen.symm.trans ht)
    simp only [Function.update_self]
    exact hown hm

lemma supplied_key (hf : Supplied fw tbl pairs f) {serial : ℕ} {e : KeyEvent}
    (horderly : Orderly fw tbl f (.key serial e)) :
    Supplied fw tbl pairs
      { f with
        keyboards := Function.update f.keyboards serial
          (processRecordUser fw (f.keyboards serial) e).1 } := by
  have hstored (n : ℕ) : (Function.update f.keyboards serial
      (processRecordUser fw (f.keyboards serial) e).1 n).stored = (f.keyboards n).stored := by
    rcases eq_or_ne n serial with rfl | hne
    · rw [Function.update_self]
      exact key_stored _ e
    · rw [Function.update_of_ne hne]
  refine ⟨hf.covered, hf.numbered, hf.closed, ?_, ?_, ?_⟩
  · intro p hm
    exact own_congr (hf.own p hm) (hstored _)
  · intro p hm hc ht
    exact loaded_congr (hf.loaded p hm hc ht) (hstored _)
  · intro t hm ht
    obtain ⟨kb, sent, hkb, hsent, hreceives⟩ := hf.sending t hm ht
    refine ⟨kb, sent, hkb, hsent, ?_⟩
    simp only
    rcases eq_or_ne t.serial serial with rfl | hne
    · rw [Function.update_self]
      exact hreceives.key (horderly t ht rfl)
    · rw [Function.update_of_ne hne]
      exact hreceives

lemma supplied_step (hp : Transferable fw tbl pairs) {i : Incident} (hf : Supplied fw tbl pairs f)
    (hallowed : f.Granted tbl i ∧ Orderly fw tbl f i) (hs : f.step fw tbl memory i = some f') :
    Supplied fw tbl pairs f' := by
  cases i with
  | daemon h => exact supplied_daemon hp hf hallowed hs
  | report =>
    simp only [Fleet.step] at hs
    split at hs
    · next report rest target hrest hopen =>
      obtain rfl := Option.some.inj hs
      exact supplied_report hp hf hrest hopen
    · cases hs
  | key serial e =>
    obtain rfl := Option.some.inj hs
    exact supplied_key hf hallowed.2

lemma Own.tapped {kb : Keyboard} (h : Own fw pairs kb) (hfits : ∀ pair ∈ pairs, Fits fw pair.2) {c : UInt16}
    (hc : c ≠ fw.kcRgui) : tapped fw kb c = some (.guiTap c) ∨
      ∃ pair ∈ pairs, keycodeOf fw (pair.1.headD 0) = c ∧ tapped fw kb c = some (.text pair.2) := by
  rcases h c with hnone | ⟨pair, hp, hkc, hsome⟩
  · exact Or.inl (tapped_none hc hnone)
  · exact Or.inr ⟨pair, hp, hkc, tapped_stored hc (hfits pair hp).1 hsome⟩

lemma lastEntry_mem {c : UInt16} {pair : Bytes × Bytes}
    (h : lastEntry (keycodeOf fw) c pairs = some pair) : pair ∈ pairs :=
  List.mem_reverse.mp (List.mem_of_find?_eq_some h)

lemma Loaded.tapped {kb : Keyboard} (h : Loaded fw pairs kb) (hfits : ∀ pair ∈ pairs, Fits fw pair.2)
    {c : UInt16} (hc : c ≠ fw.kcRgui) : tapped fw kb c = some
      (match lastEntry (keycodeOf fw) c pairs with
        | some pair => .text pair.2
        | none => .guiTap c) := by
  have hstored := h c
  cases hlast : lastEntry (keycodeOf fw) c pairs with
  | none =>
    rw [hlast] at hstored
    exact tapped_none hc hstored
  | some pair =>
    rw [hlast] at hstored
    exact tapped_stored hc (hfits pair (lastEntry_mem hlast)).1 hstored

theorem fleet_supplied (fw : Build) (tbl : Table) (memory : ℕ → ℕ → UInt8)
    (pairs : List (Bytes × Bytes)) (hp : Transferable fw tbl pairs) (incidents : List Incident)
    (hgranted : Runs.Always (Fleet.step fw tbl memory) (Fleet.Granted tbl) (idleFleet fw memory) incidents)
    (horderly : Runs.Always (Fleet.step fw tbl memory) (Orderly fw tbl) (idleFleet fw memory) incidents)
    (f : Fleet) (hrun : Runs.run (Fleet.step fw tbl memory) (idleFleet fw memory) incidents = some f) :
    ∀ p ∈ f.world.attached, ∀ c ≠ fw.kcRgui,
      (tapped fw (f.keyboards p.serial) c = some (.guiTap c) ∨
        ∃ pair ∈ pairs, keycodeOf fw (pair.1.headD 0) = c ∧
          tapped fw (f.keyboards p.serial) c = some (.text pair.2)) ∧
      (f.world.phase = .listening → f.world.pending = [] → listed tbl p.device →
        tapped fw (f.keyboards p.serial) c = some
          (match lastEntry (keycodeOf fw) c pairs with
            | some pair => .text pair.2
            | none => .guiTap c)) := by
  have h : Supplied fw tbl pairs f :=
    Runs.invariant_of_always (supplied_step hp) (Runs.always_and hgranted horderly) hrun supplied_idle
  intro p hm c hc
  refine ⟨(h.own p hm).tapped hp.fits hc, fun hphase hpending hl => ?_⟩
  have hopen : f.world.target = none := by simp only [World.target, hphase]
  have hturn := h.covered.turn p hm hl
  simp only [World.queue, hopen, hphase, hpending] at hturn
  have hconf : p.serial ∈ f.world.configured := by simpa using hturn
  exact (h.loaded p hm hconf (by simp [hopen])).tapped hp.fits hc

lemma slice65_transferable : Transferable sevenBit slice65Table [(ascii "n", ascii "John Doe")] where
  texts := rfl
  keys := by decide
  fits := slice65_fits
  memory _ := rfl

-- the user holds the GUI key while the transfer runs
def slice65Incidents : List Incident :=
  [.daemon (.attach (slice65 1 0)), .daemon .snapshot, .daemon (.visit (hostHid [slice65 1 0])), .report,
    .key 0 ⟨0xE7, true, false⟩, .report, .report, .report, .daemon .finish, .daemon .register]

theorem fleet_supplied_slice65 : ∃ f, Runs.run (Fleet.step sevenBit slice65Table fun _ _ => 0)
      (idleFleet sevenBit fun _ _ => 0) slice65Incidents = some f ∧
    tapped sevenBit (f.keyboards 0) 110 = some (.text (ascii "John Doe")) := by
  refine ⟨_, rfl, ?_⟩
  refine (fleet_supplied sevenBit slice65Table (fun _ _ => 0) [(ascii "n", ascii "John Doe")]
    slice65_transferable slice65Incidents ?_ ?_ _ rfl ⟨0, slice65 1 0⟩ ?_ 110 (by decide)).2 rfl rfl rfl
  · refine Runs.always_cons ?_ rfl (Runs.always_cons trivial rfl (Runs.always_cons ?_ rfl
      (Runs.always_of_forall fun f i hi => ?_)))
    · exact granted_first rfl rfl
    · exact works_hostHid _
    · simp only [List.mem_cons, List.not_mem_nil, or_false] at hi
      rcases hi with rfl | rfl | rfl | rfl | rfl | rfl | rfl <;> trivial
  · apply Runs.always_cons (fun _ => Or.inl rfl) rfl
    apply Runs.always_cons (fun _ hp _ => hp) rfl
    refine Runs.always_cons ?_ rfl (Runs.always_of_forall fun f i hi => ?_)
    · rintro q ⟨⟩ _ _ x hx _ _
      obtain rfl := List.mem_singleton.mp hx
      decide
    · simp only [List.mem_cons, List.not_mem_nil, or_false] at hi
      rcases hi with rfl | rfl | rfl | rfl | rfl | rfl | rfl
      all_goals first | exact fun _ _ _ => rfl | exact trivial
  · exact List.mem_singleton_self _

end Run

end KbReg.Detect
