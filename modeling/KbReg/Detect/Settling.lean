import KbReg.Detect.Fleet

namespace KbReg.Detect

open KbReg.Firmware KbReg.Host KbReg.Protocol

section Progress

def Happening.outside : Happening → Bool
  | .attach _ | .detach _ => true
  | _ => false

def Incident.outside : Incident → Bool
  | .daemon h => h.outside
  | _ => false

def Incident.own : Incident → Bool
  | .daemon h => !h.outside
  | .report => true
  | .key _ _ => false

def World.ahead (w : World) : ℕ :=
  (match w.phase with
    | .starting => w.attached.length
    | .scanning todo | .scanConfiguring _ todo => todo.length
    | .listening | .callbackConfiguring _ => 0) + w.pending.length

def World.rank (w : World) : ℕ :=
  match w.phase with
  | .starting => 2
  | .scanning _ | .scanConfiguring _ _ => 1
  | .listening | .callbackConfiguring _ => 0

def Fleet.work (tbl : Table) (f : Fleet) : ℕ :=
  ((tableReports tbl).length + 2) * f.world.ahead + f.world.rank + f.rest.length +
    f.world.target.toList.length

def Idle (f : Fleet) : Prop := f.world.phase = .listening ∧ f.world.pending = []

variable {fw : Build} {tbl : Table} {memory : ℕ → ℕ → UInt8} {w w' : World} {h : Happening}

lemma visit_proceeds {hid : Hid} (hs : w.step tbl (.visit hid) = some w') :
    w'.ahead + 1 ≤ w.ahead ∧ w'.rank = w.rank := by
  obtain ⟨plug, todo, hphase, hserved⟩ := visit_cases hs
  have hnext : todo.length + w.pending.length + 1 ≤ (plug :: todo).length + w.pending.length := by
    rw [List.length_cons]
    omega
  simp only [World.ahead, World.rank, hphase]
  cases hserved with
  | gone _ =>
    refine ⟨le_trans ?_ hnext, rfl⟩
    change 0 + w.pending.length + 1 ≤ _
    omega
  | idle _ _ => exact ⟨hnext, rfl⟩
  | busy target _ _ => exact ⟨hnext, rfl⟩

lemma handle_proceeds {hid : Hid} (hs : w.step tbl (.handle hid) = some w') :
    w'.ahead + 1 ≤ w.ahead ∧ w'.rank = w.rank := by
  obtain ⟨plug, pending, hphase, hpending, hserved⟩ := handle_cases hs
  simp only [World.ahead, World.rank, hphase, hpending, List.length_cons]
  cases hserved with
  | gone _ => simp [hphase]
  | idle _ _ => simp [hphase]
  | busy target _ _ => simp

lemma proceeds (hs : w.step tbl h = some w') (hown : ¬ h.outside) :
    (¬ h.opens ∧ w'.ahead = w.ahead ∧
        w'.rank + w'.target.toList.length + 1 = w.rank + w.target.toList.length) ∨
      (h.opens ∧ w'.ahead + 1 ≤ w.ahead ∧ w'.rank = w.rank) := by
  cases h with
  | attach device => exact absurd rfl hown
  | detach serial => exact absurd rfl hown
  | visit hid => exact Or.inr ⟨rfl, visit_proceeds hs⟩
  | handle hid => exact Or.inr ⟨rfl, handle_proceeds hs⟩
  | snapshot =>
    simp only [World.step] at hs
    split at hs
    · next hphase =>
      obtain rfl := Option.some.inj hs
      refine Or.inl ⟨Bool.false_ne_true, ?_, ?_⟩
      · simp [World.ahead, hphase]
      · simp [World.rank, World.target, hphase]
    · cases hs
  | register =>
    simp only [World.step] at hs
    split at hs
    · next hphase =>
      obtain rfl := Option.some.inj hs
      refine Or.inl ⟨Bool.false_ne_true, ?_, ?_⟩
      · simp [World.ahead, hphase]
      · simp [World.rank, World.target, hphase]
    · cases hs
  | finish =>
    simp only [World.step] at hs
    split at hs
    · next target todo hphase =>
      obtain rfl := Option.some.inj hs
      refine Or.inl ⟨Bool.false_ne_true, ?_, ?_⟩
      · simp [World.ahead, hphase]
      · simp [World.rank, World.target, hphase]
    · next target hphase =>
      obtain rfl := Option.some.inj hs
      refine Or.inl ⟨Bool.false_ne_true, ?_, ?_⟩
      · simp [World.ahead, hphase]
      · simp [World.rank, World.target, hphase]
    · cases hs

lemma rest_opened (tbl : Table) (target : Option Plug) :
    (if target.isSome then tableReports tbl else []).length + target.toList.length ≤
      (tableReports tbl).length + 1 := by
  cases target with
  | none => simp
  | some target => simp

lemma work_daemon {f f' : Fleet} (hs : f.daemonStep fw tbl memory h = some f') (hown : ¬ h.outside) :
    f'.work tbl + 1 ≤ f.work tbl := by
  by_cases hguard : h.closes ∧ f.rest ≠ []
  · rw [Fleet.daemonStep, if_pos hguard] at hs
    cases hs
  rw [Fleet.daemonStep, if_neg hguard] at hs
  obtain ⟨w, hstep, rfl⟩ := Option.map_eq_some_iff.mp hs
  simp only [Fleet.work]
  rcases proceeds hstep hown with ⟨hopens, hahead, hrank⟩ | ⟨hopens, hahead, hrank⟩
  · rw [if_neg hopens, hahead]
    omega
  · -- a device is taken from the queue, which pays for the reports of its transfer
    have hpaid := Nat.mul_le_mul_left ((tableReports tbl).length + 2) hahead
    have hrest := rest_opened tbl w.target
    rw [Nat.mul_succ] at hpaid
    rw [if_pos hopens, hrank]
    omega

lemma work_step {f f' : Fleet} {i : Incident} (hs : f.step fw tbl memory i = some f')
    (hi : ¬ i.outside) : [i].countP Incident.own + f'.work tbl ≤ f.work tbl := by
  cases i with
  | daemon h =>
    have hdone := work_daemon hs hi
    have hcount : [Incident.daemon h].countP Incident.own ≤ 1 := List.countP_le_length
    omega
  | report =>
    simp only [Fleet.step] at hs
    split at hs
    · next report rest target hrest hopen =>
      obtain rfl := Option.some.inj hs
      simp only [Fleet.work, hrest, List.length_cons, List.countP_singleton, Incident.own, if_true]
      omega
    · cases hs
  | key serial e =>
    obtain rfl := Option.some.inj hs
    simp [Fleet.work, Incident.own]

lemma work_run {f f' : Fleet} {incidents : List Incident} (hi : ∀ i ∈ incidents, ¬ i.outside)
    (hrun : Runs.run (Fleet.step fw tbl memory) f incidents = some f') :
    incidents.countP Incident.own + f'.work tbl ≤ f.work tbl := by
  induction incidents generalizing f with
  | nil =>
    obtain rfl := Option.some.inj hrun
    simp
  | cons i incidents ih =>
    obtain ⟨g, hs, hrest⟩ := Runs.run_cons hrun
    have hstep := work_step hs (hi i List.mem_cons_self)
    have hmore := ih (fun j hj => hi j (List.mem_cons_of_mem _ hj)) hrest
    rw [← List.singleton_append, List.countP_append]
    omega

lemma serve_possible (hvalid : Valid tbl) (attached : List Plug) (device : UsbDevice) :
    serve tbl (hostHid []) attached device = .ok none := by
  obtain ⟨b, hb⟩ := hvalid.isCustomKeyboard device.idVendor.toNat device.idProduct.toNat
  rw [serve, hb]
  cases b with
  | false => rfl
  | true => rfl

lemma visit_possible (hvalid : Valid tbl) {plug : Plug} {todo : List Plug}
    (hphase : w.phase = .scanning (plug :: todo)) : (w.step tbl (.visit (hostHid []))).isSome := by
  simp only [World.step, hphase, serve_possible hvalid]
  split_ifs <;> rfl

lemma handle_possible (hvalid : Valid tbl) {plug : Plug} {pending : List Plug}
    (hphase : w.phase = .listening) (hpending : w.pending = plug :: pending) :
    (w.step tbl (.handle (hostHid []))).isSome := by
  simp only [World.step, hphase, hpending, serve_possible hvalid]
  split_ifs <;> rfl

lemma daemonStep_possible {f : Fleet} (hclosable : h.closes = false ∨ f.rest = [])
    (hs : (f.world.step tbl h).isSome) : (f.daemonStep fw tbl memory h).isSome := by
  have hguard : ¬ (h.closes ∧ f.rest ≠ []) := by
    rintro ⟨hcloses, hrest⟩
    rw [hcloses] at hclosable
    exact hrest (hclosable.resolve_left Bool.noConfusion)
  rw [Fleet.daemonStep, if_neg hguard, Option.isSome_map]
  exact hs

lemma closes (fw : Build) (memory : ℕ → ℕ → UInt8) (f : Fleet) (target : Plug)
    (hopen : f.world.target = some target) (hfinish : (f.world.step tbl .finish).isSome) :
    ∃ i : Incident, i.own ∧ (f.step fw tbl memory i).isSome := by
  cases hrest : f.rest with
  | nil => exact ⟨.daemon .finish, rfl, daemonStep_possible (Or.inr hrest) hfinish⟩
  | cons report rest => exact ⟨.report, rfl, by simp [Fleet.step, hrest, hopen]⟩

lemma goes_on (fw : Build) (memory : ℕ → ℕ → UInt8) (hvalid : Valid tbl) (f : Fleet) (hidle : ¬ Idle f) :
    ∃ i : Incident, i.own ∧ (f.step fw tbl memory i).isSome := by
  cases hphase : f.world.phase with
  | starting =>
    exact ⟨.daemon .snapshot, rfl, daemonStep_possible (Or.inl rfl) (by simp [World.step, hphase])⟩
  | scanning todo =>
    cases todo with
    | nil => exact ⟨.daemon .register, rfl, daemonStep_possible (Or.inl rfl) (by simp [World.step, hphase])⟩
    | cons plug todo =>
      exact ⟨.daemon (.visit (hostHid [])), rfl,
        daemonStep_possible (Or.inl rfl) (visit_possible hvalid hphase)⟩
  | scanConfiguring target todo =>
    exact closes fw memory f target (by simp only [World.target, hphase]) (by simp [World.step, hphase])
  | callbackConfiguring target =>
    exact closes fw memory f target (by simp only [World.target, hphase]) (by simp [World.step, hphase])
  | listening =>
    cases hpending : f.world.pending with
    | nil => exact absurd ⟨hphase, hpending⟩ hidle
    | cons plug pending =>
      exact ⟨.daemon (.handle (hostHid [])), rfl,
        daemonStep_possible (Or.inl rfl) (handle_possible hvalid hphase hpending)⟩

lemma rests {f : Fleet} (hidle : Idle f) {i : Incident} (hi : i.own) : f.step fw tbl memory i = none := by
  obtain ⟨hphase, hpending⟩ := hidle
  cases i with
  | daemon h =>
    cases h with
    | attach device => cases hi
    | detach serial => cases hi
    | _ => simp [Fleet.step, Fleet.daemonStep, World.step, hphase, hpending]
  | report => simp [Fleet.step, World.target, hphase]
  | key serial e => cases hi

theorem fleet_settles (fw : Build) (tbl : Table) (memory : ℕ → ℕ → UInt8) (hvalid : Valid tbl)
    (f : Fleet) :
    (∀ incidents f', (∀ i ∈ incidents, ¬ i.outside) →
      Runs.run (Fleet.step fw tbl memory) f incidents = some f' →
        incidents.countP Incident.own + f'.work tbl ≤ f.work tbl) ∧
    ((∀ i : Incident, i.own → f.step fw tbl memory i = none) ↔
      f.world.phase = .listening ∧ f.world.pending = []) := by
  refine ⟨fun incidents f' hi hrun => work_run hi hrun, fun hstuck => ?_, fun hidle i hi => rests hidle hi⟩
  by_contra hbusy
  obtain ⟨i, hi, hsome⟩ := goes_on fw memory hvalid f hbusy
  rw [hstuck i hi] at hsome
  cases hsome

theorem fleet_settles_slice65 : ∃ f, Runs.run (Fleet.step sevenBit slice65Table fun _ _ => 0)
      (idleFleet sevenBit fun _ _ => 0) [.daemon (.attach (slice65 1 0))] = some f ∧
    slice65Incidents.tail.countP Incident.own ≤ f.work slice65Table ∧
    ¬ ∀ i : Incident, i.own → f.step sevenBit slice65Table (fun _ _ => 0) i = none := by
  refine ⟨_, rfl, ?_, fun hstuck => ?_⟩
  · apply le_trans (Nat.le_add_right _ _)
    refine (fleet_settles sevenBit slice65Table (fun _ _ => 0) slice65Table_valid _).1
      slice65Incidents.tail _ ?_ rfl
    intro i hi
    simp only [slice65Incidents, List.tail_cons, List.mem_cons, List.not_mem_nil, or_false] at hi
    rcases hi with rfl | rfl | rfl | rfl | rfl | rfl | rfl | rfl | rfl
    all_goals exact nofun
  · exact nomatch ((fleet_settles sevenBit slice65Table (fun _ _ => 0) slice65Table_valid _).2.mp
      hstuck).1

end Progress

end KbReg.Detect
