import KbReg.Host.Device
import KbReg.Host.Reading
import KbReg.Protocol.Answers

/-! `kb_reg`, and what its exit status says about the keyboard. -/

namespace KbReg.Cli

open KbReg.Firmware KbReg.Host KbReg.Protocol

/-- The parsed command line. `input` is what `read_all` or `getline` takes from the standard input, and
`terminal` tells which of the two. -/
structure Options where
  help : Bool
  key : Bytes
  raw : Bool
  vendorId : ℤ
  productId : ℤ
  unmatched : List Bytes
  terminal : Bool
  input : Bytes

def joinLoop (first : Bool) (ss : Bytes) : List Bytes → Bytes
  | [] => ss
  -- nothing ever clears `first`
  | arg :: args => joinLoop first ((if first then ss else ss ++ [0x20]) ++ arg) args

def escape (str : Bytes) : Bytes := str.flatMap fun c => if c = 0x5C then [0x5C, 0x5C] else [c]

def Options.given (opts : Options) : Bytes :=
  if 0 < opts.unmatched.length then joinLoop true [] opts.unmatched else opts.input

def Options.data (opts : Options) : Bytes := if opts.raw then escape opts.given else opts.given

def Options.announced (opts : Options) : List String :=
  (if ¬ 0 < opts.unmatched.length ∧ opts.terminal then ["Input what you'd like to copy to the Keyboard ->"]
    else []) ++
  if opts.raw then ["Escaping data (" ++ text opts.given ++ ")\n", "Data: " ++ text opts.data ++ "\n"]
  else []

def announce (s : Session) (opts : Options) : Session := { s with console := s.console ++ opts.announced }

variable (hid : Hid) (env : Env)

def main (s : Session) (opts : Options) : Except Stop (ℤ × Session) :=
  if opts.help then .ok (0, s)
  else
    let s := announce s opts
    if hid.init ≠ 0 then .ok (-100, s)
    else match openRaw hid opts.vendorId opts.productId with
      | none => .ok (-101, s)
      | some dev => do
        let _ ← getVendor hid dev
        let _ ← getProduct hid dev
        let s ← if opts.key ≠ [] then setKey env s opts.key else pure s
        pure (0, storeData env s opts.data)

def exitStatus (status : ℤ) : ℤ := status % 256

def keyReports (opts : Options) : List Bytes :=
  if opts.key ≠ [] then [frame msgKey [opts.key.headD 0]] else []

def target (fw : Build) (kb : Keyboard) (opts : Options) : UInt16 :=
  if opts.key ≠ [] then keycodeOf fw (opts.key.headD 0) else kb.current fw

variable {hid env} {opts : Options}

lemma main_stops (hinit : hid.init = 0) (hhelp : opts.help = false) {dev : Path}
    (hdev : openRaw hid opts.vendorId opts.productId = some dev)
    (hname : hid.manufacturer dev = none ∨ hid.product dev = none) (s : Session) :
    main hid env s opts = .error (.exit 1) := by
  cases hm : hid.manufacturer dev with
  | none => simp [main, hinit, hhelp, hdev, getVendor, hm, bind, Except.bind]
  | some name =>
    have hp : hid.product dev = none := hname.resolve_left (by simp [hm])
    simp [main, hinit, hhelp, hdev, getVendor, getProduct, hm, hp, bind, Except.bind]

def mainBuffers (opts : Options) : List Bytes :=
  (if opts.key ≠ [] then [keyBuffer opts.key] else []) ++ storeBuffers opts.data

lemma mainBuffers_reports (opts : Options) :
    (mainBuffers opts).map (List.take 33) = keyReports opts ++ storeReports opts.data := by
  rw [mainBuffers, List.map_append, storeBuffers_reports, keyReports]
  split_ifs
  · rw [keyBuffer_report, Call.reports]
  · rfl

lemma main_runs (hid : Hid) (env : Env) (opts : Options) (hinit : hid.init = 0)
    (hhelp : opts.help = false) {dev : Path}
    (hdev : openRaw hid opts.vendorId opts.productId = some dev)
    (hname : ¬ (hid.manufacturer dev = none ∨ hid.product dev = none)) (s : Session) :
    main hid env s opts = .ok (0, sendAll env (announce s opts) (mainBuffers opts)) := by
  obtain ⟨vendor, hv⟩ := Option.ne_none_iff_exists'.mp fun h => hname (Or.inl h)
  obtain ⟨product, hp⟩ := Option.ne_none_iff_exists'.mp fun h => hname (Or.inr h)
  by_cases hk : opts.key = []
  · simp [main, hinit, hhelp, hdev, getVendor, getProduct, hv, hp, hk, bind, Except.bind, pure,
      Except.pure, storeData_sends, mainBuffers]
  · simp [main, hinit, hhelp, hdev, getVendor, getProduct, hv, hp, hk, setKey_sends env _ hk, bind,
      Except.bind, pure, Except.pure, storeData_sends, mainBuffers, sendAll]

lemma sends_written (env : Env) (s : Session) (opts : Options) :
    (sendAll env (announce s opts) (mainBuffers opts)).written.drop s.written.length =
      stamp env s.written.length (keyReports opts ++ storeReports opts.data) := by
  rw [sendAll_written, mainBuffers_reports]
  exact List.drop_left

lemma sends_checks (env : Env) (s : Session) (opts : Options) :
    (sendAll env (announce s opts) (mainBuffers opts)).checks =
      s.checks + (keyReports opts ++ storeReports opts.data).length := by
  rw [sendAll_checks, ← mainBuffers_reports, List.length_map]
  rfl

variable {fw : Build}

lemma reports_ok_iff (hd : 0 ∉ opts.data) (kb : Keyboard) (n : ℕ) :
    AllOk fw kb (stamp env n (keyReports opts ++ storeReports opts.data)) ↔
      Arrives env n (keyReports opts ++ storeReports opts.data).length ∧
        opts.data.length < fw.bufferMax ∧ RoomFor fw kb (target fw kb opts) := by
  have hlen : (storeReports opts.data).length = opts.data.length / 31 + 2 := by
    simp [storeReports]
  by_cases hk : opts.key = []
  · simp only [keyReports, target, hk, ne_eq, not_true_eq_false, if_false, List.nil_append, hlen]
    exact store_ok_iff hd kb n
  · simp only [keyReports, target, ne_eq, hk, not_false_eq_true, if_true, List.singleton_append,
      List.length_cons, hlen, stamp, allOk_cons, arrives_succ, store_ok_iff hd]
    by_cases hw : env.write n < 0
    · simp [not_le.mpr hw]
    · simp only [arrive, hw, if_false, not_lt.mp hw, frame_tail, receive_key, true_and]
      rfl

lemma reports_ok_stored (hd : 0 ∉ opts.data) {kb : Keyboard} {n : ℕ}
    (h : AllOk fw kb (stamp env n (keyReports opts ++ storeReports opts.data))) :
    (deliver fw kb (stamp env n (keyReports opts ++ storeReports opts.data))).stored
      (target fw kb opts) = some (opts.data ++ [0]) := by
  by_cases hk : opts.key = []
  · simp only [keyReports, target, hk, ne_eq, not_true_eq_false, if_false, List.nil_append] at h ⊢
    exact store_ok_stored hd h
  · simp only [keyReports, target, ne_eq, hk, not_false_eq_true, if_true, List.singleton_append,
      stamp, allOk_cons, deliver_cons] at h ⊢
    have hcurrent : (arrive fw kb ⟨frame msgKey [opts.key.headD 0], env.write n⟩).current fw =
        keycodeOf fw (opts.key.headD 0) := by
      rw [arrive, if_neg (not_lt.mpr h.1.1)]
      rfl
    rw [← hcurrent]
    exact store_ok_stored hd h.2

def Truthful (fw : Build) (hid : Hid) (env : Env) (s : Session) (opts : Options) (kb : Keyboard) :
    Prop :=
  ∀ status t, main hid env s opts = .ok (status, t) → exitStatus status = 0 →
    let sent := t.written.drop s.written.length
    (∀ w ∈ sent, 0 ≤ w.res) ∧ (∀ i, s.checks ≤ i → i < t.checks → (env.wait i).Ok) ∧
      AllOk fw kb sent ∧ (deliver fw kb sent).stored (target fw kb opts) = some (opts.data ++ [0])

/-- Nothing but an unreadable name makes the exit status differ from 0 once the device is open. -/
theorem exit_status_truthful_iff (fw : Build) (hid : Hid) (env : Env) (s : Session) (opts : Options)
    (kb : Keyboard) (dev : Path) (hinit : hid.init = 0) (hhelp : opts.help = false)
    (hdev : openRaw hid opts.vendorId opts.productId = some dev) (hd : 0 ∉ opts.data) :
    Truthful fw hid env s opts kb ↔
      hid.manufacturer dev = none ∨ hid.product dev = none ∨
        (let reports := keyReports opts ++ storeReports opts.data
         Arrives env s.written.length reports.length ∧
          (∀ i < reports.length, (env.wait (s.checks + i)).Ok) ∧
          opts.data.length < fw.bufferMax ∧ RoomFor fw kb (target fw kb opts)) := by
  rw [← or_assoc]
  by_cases hname : hid.manufacturer dev = none ∨ hid.product dev = none
  · refine iff_of_true ?_ (Or.inl hname)
    intro status t ht
    rw [main_stops hinit hhelp hdev hname] at ht
    cases ht
  · have hrun := main_runs hid env opts hinit hhelp hdev hname s
    have hok : AllOk fw kb (stamp env s.written.length _) ↔ _ := reports_ok_iff hd kb s.written.length
    constructor
    · intro h
      obtain ⟨_, hwaits, hall, _⟩ := h 0 _ hrun rfl
      rw [sends_written] at hall
      rw [sends_checks] at hwaits
      obtain ⟨harrive, hfit, hroom⟩ := hok.mp hall
      exact Or.inr ⟨harrive, fun i hi => hwaits _ (by omega) (by omega), hfit, hroom⟩
    · intro h status u hu _
      obtain ⟨harrive, hwaits, hfit, hroom⟩ := h.resolve_left hname
      have hall := hok.mpr ⟨harrive, hfit, hroom⟩
      rw [hrun] at hu
      obtain ⟨rfl, rfl⟩ := Prod.mk.inj (Except.ok.inj hu)
      rw [sends_written, sends_checks]
      refine ⟨hall.written, fun i hlow hhigh => ?_, hall, reports_ok_stored hd hall⟩
      obtain ⟨k, rfl⟩ := Nat.exists_eq_add_of_le hlow
      exact hwaits k (by omega)

def slice65 : Hid :=
  ⟨0, fun _ _ => [⟨1, rawUsageId, rawUsagePage⟩], fun _ => true, fun _ => some [], fun _ => some []⟩

def greeting : Options := ⟨false, [], false, 0, 0, [[104, 105]], false, []⟩

theorem lost_reports_exit_zero :
    ¬ Truthful plainBuild slice65 (Env.prompt fun _ => -1) Session.fresh greeting plainKeyboard := by
  intro h
  have hrun := main_runs slice65 (Env.prompt fun _ => -1) greeting rfl rfl
    (show openRaw slice65 _ _ = some 1 from rfl) (by decide) Session.fresh
  have hres := (h 0 _ hrun rfl).1
  rw [sends_written] at hres
  revert hres
  decide

theorem exit_status_truthful_greeting :
    Truthful plainBuild slice65 (Env.prompt fun _ => 33) Session.fresh greeting
      plainKeyboard := by
  refine (exit_status_truthful_iff _ slice65 _ _ greeting _ 1 rfl rfl rfl (by decide)).mpr ?_
  exact Or.inr (Or.inr ⟨fun _ _ => prompt_write _, fun _ _ => promptOk_ok, by decide, by decide⟩)

end KbReg.Cli
