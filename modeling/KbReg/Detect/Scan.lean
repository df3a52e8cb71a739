import KbReg.Detect.Config
import KbReg.Host.Device
import KbReg.Protocol.Losses

namespace KbReg.Detect

open KbReg.Host KbReg.Protocol

structure UsbDevice where
  address : ℕ
  idVendor : UInt16
  idProduct : UInt16
  bDeviceClass : UInt8
  -- what `libusb_get_device_descriptor` returns for it
  descriptor : ℤ
  interfaces : List HidDeviceInfo
  deriving DecidableEq, Repr

/-- What the daemon does to the outside. `configure` marks a call of `configure_keyboard`. -/
inductive Action
  | configure (device : UsbDevice)
  | hidInit (rc : ℤ)
  | opened (dev : Path)
  | wrote (dev : Path) (sent : List Written)
  | closed (dev : Path)
  | hidExit
  | freedList
  deriving DecidableEq, Repr

structure Effect where
  actions : List Action
  stop : Option Stop
  deriving DecidableEq, Repr

def Effect.andThen (a b : Effect) : Effect :=
  match a.stop with
  | some _ => a
  | none => ⟨a.actions ++ b.actions, b.stop⟩

def tableCalls (pairs : List (Bytes × Bytes)) : List Call := pairCalls pairs ++ [.setKey (ascii ".")]

def configureKeyboard (tbl : Table) (device : UsbDevice) (hid : Hid) (env : Env) : Effect :=
  if hid.init ≠ 0 then ⟨[.configure device, .hidInit hid.init], none⟩
  else match openRaw hid device.idVendor.toNat device.idProduct.toNat with
    | none => ⟨[.configure device, .hidInit 0, .hidExit], none⟩
    | some dev =>
      let before : List Action := [.configure device, .hidInit 0, .opened dev]
      match getVendor hid dev, getProduct hid dev, keyTexts tbl with
      | .error stop, _, _ => ⟨before, some stop⟩
      | .ok _, .error stop, _ => ⟨before, some stop⟩
      | .ok _, .ok _, none => ⟨before, some .nullPointer⟩
      | .ok _, .ok _, some pairs =>
        match runCalls env Session.fresh (tableCalls pairs) with
        -- an empty key is the first one of the table, so nothing has been written before it
        | .error stop => ⟨before, some stop⟩
        | .ok s => ⟨before ++ [.wrote dev s.written, .closed dev, .hidExit], none⟩

/-- The loop of `configure_if_connected`. The `n`-th call of `configure_keyboard` meets `runs n`. -/
def scanLoop (runs : ℕ → Hid × Env) (tbl : Table) : ℕ → List UsbDevice → Effect
  | _, [] => ⟨[.freedList], none⟩
  | n, device :: devices =>
    if device.descriptor ≠ 0 then ⟨[.freedList], none⟩
    else match isCustomKeyboard tbl device.idVendor.toNat device.idProduct.toNat with
      | .error stop => ⟨[], some stop⟩
      | .ok false => scanLoop runs tbl n devices
      | .ok true =>
        (configureKeyboard tbl device (runs n).1 (runs n).2).andThen (scanLoop runs tbl (n + 1) devices)

def configureIfConnected (runs : ℕ → Hid × Env) (tbl : Table) : Option (List UsbDevice) → Effect
  -- no list, and the pointer that is freed behind the loop has never been set
  | none => ⟨[.freedList], some .wildPointer⟩
  | some devices => scanLoop runs tbl 0 devices

def hotplugCallback (hid : Hid) (env : Env) (tbl : Table) (device : UsbDevice) : Effect :=
  if device.descriptor ≠ 0 then ⟨[], none⟩
  else match isCustomKeyboard tbl device.idVendor.toNat device.idProduct.toNat with
    | .error stop => ⟨[], some stop⟩
    | .ok false => ⟨[], none⟩
    | .ok true => configureKeyboard tbl device hid env

def matchAny : ℤ := -1

structure Arguments where
  vendorId : ℤ
  productId : ℤ
  deriving DecidableEq, Repr

def noArguments : Arguments := ⟨matchAny, matchAny⟩

def Arguments.accepts (args : Arguments) (device : UsbDevice) : Prop :=
  (args.vendorId = matchAny ∨ args.vendorId = device.idVendor.toNat) ∧
    (args.productId = matchAny ∨ args.productId = device.idProduct.toNat)

instance (args : Arguments) (device : UsbDevice) : Decidable (args.accepts device) :=
  inferInstanceAs (Decidable (_ ∧ _))

def classId : ℤ := 0

/-- The arrivals for which libusb calls the callback. -/
def Arguments.reported (args : Arguments) (device : UsbDevice) : Prop :=
  args.accepts device ∧ (classId = matchAny ∨ classId = device.bDeviceClass.toNat)

instance (args : Arguments) (device : UsbDevice) : Decidable (args.reported device) :=
  inferInstanceAs (Decidable (_ ∧ _))

def arrival (hid : Hid) (env : Env) (args : Arguments) (tbl : Table) (device : UsbDevice) : Effect :=
  if args.reported device then hotplugCallback hid env tbl device else ⟨[], none⟩

def listed (tbl : Table) (device : UsbDevice) : Bool :=
  match isCustomKeyboard tbl device.idVendor.toNat device.idProduct.toNat with
  | .ok b => b
  | .error _ => false

lemma andThen_stop {a b : Effect} : (a.andThen b).stop = none ↔ a.stop = none ∧ b.stop = none := by
  rw [Effect.andThen]
  cases h : a.stop <;> simp [h]

lemma mem_andThen {a b : Effect} {x : Action} :
    x ∈ (a.andThen b).actions ↔ x ∈ a.actions ∨ a.stop = none ∧ x ∈ b.actions := by
  rw [Effect.andThen]
  cases h : a.stop <;> simp

section Outcomes

variable {tbl : Table} {hid : Hid} {device : UsbDevice}

lemma tableCalls_valid {pairs : List (Bytes × Bytes)} (h : ∀ pair ∈ pairs, pair.1 ≠ []) :
    ∀ call ∈ tableCalls pairs, call.Valid := by
  intro call hm
  rcases List.mem_append.mp hm with hm | hm
  · obtain ⟨pair, hp, hc⟩ := List.mem_flatMap.mp hm
    simp only [List.mem_cons, List.not_mem_nil, or_false] at hc
    rcases hc with rfl | rfl
    · exact h pair hp
    · trivial
  · rw [List.mem_singleton.mp hm]
    change ascii "." ≠ []
    decide

structure Opens (hid : Hid) (device : UsbDevice) (dev : Path) : Prop where
  init : hid.init = 0
  raw : openRaw hid device.idVendor.toNat device.idProduct.toNat = some dev
  names : hid.manufacturer dev ≠ none ∧ hid.product dev ≠ none

lemma configureKeyboard_opened {device : UsbDevice} {dev : Path} (h : Opens hid device dev)
    {pairs : List (Bytes × Bytes)} (hpairs : keyTexts tbl = some pairs)
    (hkeys : ∀ pair ∈ pairs, pair.1 ≠ []) (env : Env) : ∃ sent,
    configureKeyboard tbl device hid env = ⟨[.configure device, .hidInit 0, .opened dev, .wrote dev sent,
      .closed dev, .hidExit], none⟩ ∧ sent = stamp env 0 ((tableCalls pairs).flatMap Call.reports) := by
  obtain ⟨s, hs, hw, _⟩ := runCalls_written env Session.fresh (tableCalls_valid hkeys)
  obtain ⟨vendor, hv⟩ := Option.ne_none_iff_exists'.mp h.names.1
  obtain ⟨product, hp⟩ := Option.ne_none_iff_exists'.mp h.names.2
  refine ⟨s.written, ?_, hw⟩
  simp [configureKeyboard, h.init, h.raw, getVendor, getProduct, hv, hp, hpairs, hs]

inductive Outcome (hid : Hid) (tbl : Table) (device : UsbDevice) : Effect → Prop
  | uninitialized (hinit : hid.init ≠ 0) :
    Outcome hid tbl device ⟨[.configure device, .hidInit hid.init], none⟩
  | unopened (hinit : hid.init = 0)
      (hraw : openRaw hid device.idVendor.toNat device.idProduct.toNat = none) :
    Outcome hid tbl device ⟨[.configure device, .hidInit 0, .hidExit], none⟩
  | nameless (dev : Path) (hinit : hid.init = 0)
      (hraw : openRaw hid device.idVendor.toNat device.idProduct.toNat = some dev)
      (hnames : ¬ (hid.manufacturer dev ≠ none ∧ hid.product dev ≠ none)) :
    Outcome hid tbl device ⟨[.configure device, .hidInit 0, .opened dev], some (.exit 1)⟩
  | keyless (dev : Path) (hopens : Opens hid device dev) (hpairs : keyTexts tbl = none) :
    Outcome hid tbl device ⟨[.configure device, .hidInit 0, .opened dev], some .nullPointer⟩
  | emptyKey (dev : Path) (pairs : List (Bytes × Bytes)) (hopens : Opens hid device dev)
      (hpairs : keyTexts tbl = some pairs) (hempty : ¬ ∀ pair ∈ pairs, pair.1 ≠ []) :
    Outcome hid tbl device ⟨[.configure device, .hidInit 0, .opened dev], some .outOfRange⟩
  | loaded (dev : Path) (pairs : List (Bytes × Bytes)) (sent : List Written)
      (hopens : Opens hid device dev) (hpairs : keyTexts tbl = some pairs)
      (hkeys : ∀ pair ∈ pairs, pair.1 ≠ []) :
    Outcome hid tbl device
      ⟨[.configure device, .hidInit 0, .opened dev, .wrote dev sent, .closed dev, .hidExit], none⟩

lemma keys_of_valid {pairs : List (Bytes × Bytes)} (h : ∀ call ∈ tableCalls pairs, call.Valid) :
    ∀ pair ∈ pairs, pair.1 ≠ [] := by
  intro pair hm
  apply h (.setKey pair.1)
  apply List.mem_append_left
  exact List.mem_flatMap.mpr ⟨pair, hm, List.mem_cons_self⟩

lemma outcome_opened {dev : Path} (hopens : Opens hid device dev) (env : Env) :
    Outcome hid tbl device (configureKeyboard tbl device hid env) := by
  obtain ⟨vendor, hv⟩ := Option.ne_none_iff_exists'.mp hopens.names.1
  obtain ⟨product, hp⟩ := Option.ne_none_iff_exists'.mp hopens.names.2
  simp only [configureKeyboard, hopens.init, hopens.raw, getVendor, getProduct, hv, hp, ne_eq,
    not_true_eq_false, if_false]
  cases hpairs : keyTexts tbl with
  | none => exact .keyless dev hopens hpairs
  | some pairs =>
    dsimp only
    cases hrun : runCalls env Session.fresh (tableCalls pairs) with
    | ok s => exact .loaded dev pairs s.written hopens hpairs (keys_of_valid (runCalls_valid hrun))
    | error stop =>
      obtain rfl := runCalls_stop hrun
      refine .emptyKey dev pairs hopens hpairs fun hkeys => ?_
      rw [runCalls_sends env _ (tableCalls_valid hkeys)] at hrun
      cases hrun

theorem configureKeyboard_outcome (hid : Hid) (tbl : Table) (device : UsbDevice) (env : Env) :
    Outcome hid tbl device (configureKeyboard tbl device hid env) := by
  by_cases hinit : hid.init = 0
  · cases hraw : openRaw hid device.idVendor.toNat device.idProduct.toNat with
    | none =>
      simp only [configureKeyboard, hinit, hraw, ne_eq, not_true_eq_false, if_false]
      exact .unopened hinit hraw
    | some dev =>
      by_cases hnames : hid.manufacturer dev ≠ none ∧ hid.product dev ≠ none
      · exact outcome_opened ⟨hinit, hraw, hnames⟩ env
      · have hexit : configureKeyboard tbl device hid env =
            ⟨[.configure device, .hidInit 0, .opened dev], some (.exit 1)⟩ := by
          simp only [configureKeyboard, hinit, hraw, getVendor, getProduct, ne_eq, not_true_eq_false,
            if_false]
          cases hv : hid.manufacturer dev with
          | none => rfl
          | some vendor =>
            cases hp : hid.product dev with
            | none => rfl
            | some product => simp [hv, hp] at hnames
        rw [hexit]
        exact .nameless dev hinit hraw hnames
  · rw [configureKeyboard, if_pos hinit]
    exact .uninitialized hinit

lemma Outcome.configure_mem {d : UsbDevice} {e : Effect} (h : Outcome hid tbl device e) :
    .configure d ∈ e.actions ↔ d = device := by
  cases h <;> simp

end Outcomes

end KbReg.Detect
