import KbReg.Detect.Scan
import Mathlib.Data.List.TakeWhile

namespace KbReg.Detect

open KbReg.Host KbReg.Protocol

def UsbDevice.rawPath (device : UsbDevice) : Option Path :=
  (findRaw rawUsageId rawUsagePage device.interfaces).map HidDeviceInfo.path

def UsbDevice.hasIds (v p : UInt16) (device : UsbDevice) : Bool :=
  device.idVendor = v && device.idProduct = p

/-- A hidapi that works: it lists the interfaces of the attached devices in the order of `order`, opens
the interface that a path names and reads the names. -/
structure Serves (order : List UsbDevice) (hid : Hid) : Prop where
  init : hid.init = 0
  enumerate : ∀ v p, hid.enumerate v p = (order.filter (UsbDevice.hasIds v p)).flatMap UsbDevice.interfaces
  opens : ∀ device ∈ order, ∀ i ∈ device.interfaces, hid.openPath i.path = true
  names : ∀ dev, hid.manufacturer dev ≠ none ∧ hid.product dev ≠ none

def busHid (order : List UsbDevice) : Hid :=
  ⟨0, fun v p => (order.filter (UsbDevice.hasIds v p)).flatMap UsbDevice.interfaces, fun _ => true,
    fun _ => some [], fun _ => some []⟩

lemma serves_busHid (order : List UsbDevice) : Serves order (busHid order) where
  init := rfl
  enumerate _ _ := rfl
  opens _ _ _ _ := rfl
  names _ := ⟨Option.some_ne_none _, Option.some_ne_none _⟩

def firstPath (order : List UsbDevice) (device : UsbDevice) : Option Path :=
  (order.filter (UsbDevice.hasIds device.idVendor device.idProduct)).findSome? UsbDevice.rawPath

def Effect.configured (e : Effect) : List Path :=
  e.actions.filterMap fun
    | .wrote dev _ => some dev
    | _ => none

def tableReports (tbl : Table) : List Bytes :=
  (tableCalls ((keyTexts tbl).getD [])).flatMap Call.reports

variable {tbl : Table} {order devices : List UsbDevice} {hid : Hid}

lemma ushort_toNat (n : UInt16) : ushort n.toNat = n := by
  apply UInt16.eq_of_toBitVec_eq
  simp [ushort]

lemma findRaw_append (u p : UInt16) (xs ys : List HidDeviceInfo) :
    findRaw u p (xs ++ ys) = (findRaw u p xs).or (findRaw u p ys) := by
  induction xs with
  | nil => simp [findRaw]
  | cons x xs ih =>
    simp only [List.cons_append, findRaw]
    split_ifs <;> simp [ih]

lemma findRaw_mem {u p : UInt16} {xs : List HidDeviceInfo} {i : HidDeviceInfo}
    (h : findRaw u p xs = some i) : i ∈ xs := by
  induction xs with
  | nil => cases h
  | cons x xs ih =>
    simp only [findRaw] at h
    split_ifs at h
    · simp [Option.some.inj h]
    · exact List.mem_cons_of_mem _ (ih h)
    · exact List.mem_cons_of_mem _ (ih h)

lemma findRaw_flatMap (devices : List UsbDevice) :
    (findRaw rawUsageId rawUsagePage (devices.flatMap UsbDevice.interfaces)).map HidDeviceInfo.path =
      devices.findSome? UsbDevice.rawPath := by
  induction devices with
  | nil => rfl
  | cons device devices ih =>
    rw [List.flatMap_cons, findRaw_append, List.findSome?_cons, ← ih, UsbDevice.rawPath]
    cases findRaw rawUsageId rawUsagePage device.interfaces <;> rfl

lemma openRaw_listing {shown : List UsbDevice} {device : UsbDevice}
    (henum : hid.enumerate device.idVendor device.idProduct = shown.flatMap UsbDevice.interfaces)
    (hopens : ∀ d ∈ shown, ∀ i ∈ d.interfaces, hid.openPath i.path = true) :
    openRaw hid device.idVendor.toNat device.idProduct.toNat = shown.findSome? UsbDevice.rawPath := by
  simp only [openRaw, ushort_toNat, henum, ← findRaw_flatMap]
  cases hi : findRaw rawUsageId rawUsagePage (shown.flatMap UsbDevice.interfaces) with
  | none => rfl
  | some i =>
    obtain ⟨d, hd, hm⟩ := List.mem_flatMap.mp (findRaw_mem hi)
    simp [hopens d hd i hm]

lemma openRaw_served (h : Serves order hid) (device : UsbDevice) :
    openRaw hid device.idVendor.toNat device.idProduct.toNat = firstPath order device :=
  openRaw_listing (h.enumerate _ _) fun d hd => h.opens d (List.mem_of_mem_filter hd)

lemma configureKeyboard_served (hvalid : Valid tbl) (h : Serves order hid) {device : UsbDevice} {dev : Path}
    (hdev : firstPath order device = some dev) (env : Env) : ∃ sent,
    configureKeyboard tbl device hid env = ⟨[.configure device, .hidInit 0, .opened dev, .wrote dev sent,
      .closed dev, .hidExit], none⟩ ∧ sent.map Written.report = tableReports tbl := by
  obtain ⟨pairs, hpairs, hkeys⟩ := hvalid.keyTexts
  have hopens : Opens hid device dev := ⟨h.init, (openRaw_served h device).trans hdev, h.names dev⟩
  obtain ⟨sent, hconf, rfl⟩ := configureKeyboard_opened hopens hpairs hkeys env
  refine ⟨_, hconf, ?_⟩
  rw [tableReports, hpairs]
  exact stamp_reports _ _ _

lemma listed_of_ok {device : UsbDevice} {b : Bool}
    (h : isCustomKeyboard tbl device.idVendor.toNat device.idProduct.toNat = .ok b) :
    listed tbl device = b := by
  simp [listed, h]

def UsbDevice.readable (device : UsbDevice) : Bool := device.descriptor = 0

inductive Verdict (tbl : Table) (device : UsbDevice) : Prop
  | unreadable (hr : ¬ device.readable)
  | faulty (stop : Stop) (hr : device.readable)
      (hc : isCustomKeyboard tbl device.idVendor.toNat device.idProduct.toNat = .error stop)
  | unlisted (hr : device.readable)
      (hc : isCustomKeyboard tbl device.idVendor.toNat device.idProduct.toNat = .ok false)
  | listed (hr : device.readable)
      (hc : isCustomKeyboard tbl device.idVendor.toNat device.idProduct.toNat = .ok true)

lemma not_faulty (hvalid : Valid tbl) (device : UsbDevice) (stop : Stop) :
    isCustomKeyboard tbl device.idVendor.toNat device.idProduct.toNat ≠ .error stop := by
  obtain ⟨b, hb⟩ := hvalid.isCustomKeyboard device.idVendor.toNat device.idProduct.toNat
  simp [hb]

lemma verdict (tbl : Table) (device : UsbDevice) : Verdict tbl device := by
  by_cases hr : device.readable
  · cases hc : isCustomKeyboard tbl device.idVendor.toNat device.idProduct.toNat with
    | error stop => exact .faulty stop hr hc
    | ok b =>
      cases b with
      | false => exact .unlisted hr hc
      | true => exact .listed hr hc
  · exact .unreadable hr

section Head

variable {runs : ℕ → Hid × Env} {d : UsbDevice} (n : ℕ)

lemma scanLoop_unreadable (hr : ¬ d.readable) :
    scanLoop runs tbl n (d :: devices) = ⟨[.freedList], none⟩ := by
  rw [scanLoop, if_pos fun hd => hr (decide_eq_true hd)]

lemma not_skipped (hr : d.readable) : ¬ d.descriptor ≠ 0 := not_not.mpr (of_decide_eq_true hr)

lemma scanLoop_faulty (hr : d.readable) {stop : Stop}
    (hc : isCustomKeyboard tbl d.idVendor.toNat d.idProduct.toNat = .error stop) :
    scanLoop runs tbl n (d :: devices) = ⟨[], some stop⟩ := by
  rw [scanLoop, if_neg (not_skipped hr), hc]

lemma scanLoop_unlisted (hr : d.readable)
    (hc : isCustomKeyboard tbl d.idVendor.toNat d.idProduct.toNat = .ok false) :
    scanLoop runs tbl n (d :: devices) = scanLoop runs tbl n devices := by
  rw [scanLoop, if_neg (not_skipped hr), hc]

lemma scanLoop_listed (hr : d.readable)
    (hc : isCustomKeyboard tbl d.idVendor.toNat d.idProduct.toNat = .ok true) :
    scanLoop runs tbl n (d :: devices) =
      (configureKeyboard tbl d (runs n).1 (runs n).2).andThen (scanLoop runs tbl (n + 1) devices) := by
  rw [scanLoop, if_neg (not_skipped hr), hc]

lemma hotplugCallback_unreadable {env : Env} (hr : ¬ d.readable) :
    hotplugCallback hid env tbl d = ⟨[], none⟩ := by
  rw [hotplugCallback, if_pos fun hd => hr (decide_eq_true hd)]

lemma hotplugCallback_faulty {env : Env} (hr : d.readable) {stop : Stop}
    (hc : isCustomKeyboard tbl d.idVendor.toNat d.idProduct.toNat = .error stop) :
    hotplugCallback hid env tbl d = ⟨[], some stop⟩ := by
  rw [hotplugCallback, if_neg (not_skipped hr), hc]

lemma hotplugCallback_unlisted {env : Env} (hr : d.readable)
    (hc : isCustomKeyboard tbl d.idVendor.toNat d.idProduct.toNat = .ok false) :
    hotplugCallback hid env tbl d = ⟨[], none⟩ := by
  rw [hotplugCallback, if_neg (not_skipped hr), hc]

lemma hotplugCallback_listed {env : Env} (hr : d.readable)
    (hc : isCustomKeyboard tbl d.idVendor.toNat d.idProduct.toNat = .ok true) :
    hotplugCallback hid env tbl d = configureKeyboard tbl d hid env := by
  rw [hotplugCallback, if_neg (not_skipped hr), hc]

end Head

theorem scanLoop_served (hvalid : Valid tbl) {runs : ℕ → Hid × Env}
    (hruns : ∀ n, Serves order (runs n).1) (hfirst : ∀ d ∈ devices, (firstPath order d).isSome) (n : ℕ) :
    (scanLoop runs tbl n devices).stop = none ∧
    (scanLoop runs tbl n devices).configured =
      ((devices.takeWhile UsbDevice.readable).filter (listed tbl)).filterMap (firstPath order) ∧
    ∀ dev sent, .wrote dev sent ∈ (scanLoop runs tbl n devices).actions →
      sent.map Written.report = tableReports tbl := by
  induction devices generalizing n with
  | nil => simp [scanLoop, Effect.configured]
  | cons d devices ih =>
    have hrest := ih fun x hx => hfirst x (List.mem_cons_of_mem _ hx)
    cases verdict tbl d with
    | unreadable hr =>
      rw [scanLoop_unreadable n hr, List.takeWhile_cons_of_neg hr]
      simp [Effect.configured]
    | faulty stop hr hc => exact absurd hc (not_faulty hvalid d stop)
    | unlisted hr hc =>
      rw [scanLoop_unlisted n hr hc, List.takeWhile_cons_of_pos hr,
        List.filter_cons_of_neg (by simp [listed_of_ok hc])]
      exact hrest n
    | listed hr hc =>
      obtain ⟨dev, hdev⟩ := Option.isSome_iff_exists.mp (hfirst d (by simp))
      obtain ⟨sent, hconf, hsent⟩ := configureKeyboard_served hvalid (hruns n) hdev (runs n).2
      obtain ⟨hstop, hpaths, hreports⟩ := hrest (n + 1)
      rw [scanLoop_listed n hr hc, hconf, List.takeWhile_cons_of_pos hr,
        List.filter_cons_of_pos (listed_of_ok hc), List.filterMap_cons, hdev, ← hpaths]
      refine ⟨hstop, rfl, ?_⟩
      intro dev' sent' hm
      rcases List.mem_append.mp hm with hm | hm
      · simp only [List.mem_cons, reduceCtorEq, Action.wrote.injEq, List.not_mem_nil, or_false,
          false_or] at hm
        rw [hm.2, hsent]
      · exact hreports dev' sent' hm

section Reach

def ReachesEvery (tbl : Table) (devices : List UsbDevice) (e : Effect) : Prop :=
  (∀ d ∈ devices, d.readable → listed tbl d →
    ∃ dev, d.rawPath = some dev ∧ e.configured.count dev = 1) ∧
  ∀ dev ∈ e.configured, ∃ d ∈ devices, d.readable ∧ listed tbl d ∧ d.rawPath = some dev

lemma firstPath_isSome {device : UsbDevice} (hm : device ∈ order) (hraw : device.rawPath.isSome) :
    (firstPath order device).isSome := by
  rw [firstPath, List.findSome?_isSome_iff]
  refine ⟨device, List.mem_filter.mpr ⟨hm, ?_⟩, hraw⟩
  simp [UsbDevice.hasIds]

lemma firstPath_unique {device : UsbDevice} (hm : device ∈ order)
    (hone : ∀ d ∈ order, d.hasIds device.idVendor device.idProduct → d = device) :
    firstPath order device = device.rawPath := by
  have hall : ∀ d ∈ order.filter (UsbDevice.hasIds device.idVendor device.idProduct), d = device := by
    intro d hd
    obtain ⟨hd, hids⟩ := List.mem_filter.mp hd
    exact hone d hd hids
  have hin : device ∈ order.filter (UsbDevice.hasIds device.idVendor device.idProduct) :=
    List.mem_filter.mpr ⟨hm, by simp [UsbDevice.hasIds]⟩
  rw [firstPath, List.eq_replicate_of_mem hall]
  cases hlen : (order.filter (UsbDevice.hasIds device.idVendor device.idProduct)).length with
  | zero => exact absurd (List.length_pos_of_mem hin) (by omega)
  | succ n =>
    cases hraw : device.rawPath with
    | some dev => simp [List.replicate_succ, hraw]
    | none =>
      rw [List.findSome?_eq_none_iff]
      intro d hd
      rw [List.eq_of_mem_replicate hd, hraw]

lemma own_paths_count {path : Path} {l : List UsbDevice} (h : (l.map UsbDevice.rawPath).Nodup)
    (hm : path ∈ l.filterMap UsbDevice.rawPath) : (l.filterMap UsbDevice.rawPath).count path = 1 := by
  apply List.count_eq_one_of_mem _ hm
  apply List.pairwise_filterMap.mpr
  apply (List.pairwise_map.mp h).imp
  intro a b hne x hx y hy he
  apply hne
  rw [hx, hy, he]

/-- The scan stops at the first descriptor that it cannot read. Up to there it sends the table for each
listed device, to the interface that hidapi lists first for its identifiers. -/
theorem scan_configures_first (tbl : Table) (devices order : List UsbDevice) (runs : ℕ → Hid × Env)
    (hvalid : Valid tbl) (hperm : order.Perm devices) (hruns : ∀ n, Serves order (runs n).1)
    (hraw : ∀ d ∈ devices, d.rawPath.isSome) :
    (configureIfConnected runs tbl (some devices)).stop = none ∧
    (configureIfConnected runs tbl (some devices)).configured =
      ((devices.takeWhile UsbDevice.readable).filter (listed tbl)).filterMap (firstPath order) ∧
    (∀ dev sent, .wrote dev sent ∈ (configureIfConnected runs tbl (some devices)).actions →
      sent.map Written.report = tableReports tbl) ∧
    ((∀ d ∈ devices, d.readable) → (devices.map fun d => (d.idVendor, d.idProduct)).Nodup →
      (devices.map UsbDevice.rawPath).Nodup →
        ReachesEvery tbl devices (configureIfConnected runs tbl (some devices))) := by
  have hfirst : ∀ d ∈ devices, (firstPath order d).isSome := fun d hd =>
    firstPath_isSome (hperm.mem_iff.mpr hd) (hraw d hd)
  obtain ⟨hstop, hpaths, hreports⟩ := scanLoop_served hvalid hruns hfirst 0
  refine ⟨hstop, hpaths, hreports, fun hreadable hids hown => ?_⟩
  have hsame : ((devices.takeWhile UsbDevice.readable).filter (listed tbl)).filterMap (firstPath order) =
      (devices.filter (listed tbl)).filterMap UsbDevice.rawPath := by
    rw [List.takeWhile_eq_self_iff.mpr hreadable]
    apply List.filterMap_congr
    intro d hd
    apply firstPath_unique
    · exact hperm.mem_iff.mpr (List.mem_of_mem_filter hd)
    · intro x hx hxd
      apply List.inj_on_of_nodup_map hids (hperm.mem_iff.mp hx) (List.mem_of_mem_filter hd)
      simpa [UsbDevice.hasIds] using hxd
  have hconf : (configureIfConnected runs tbl (some devices)).configured =
      (devices.filter (listed tbl)).filterMap UsbDevice.rawPath := hpaths.trans hsame
  rw [ReachesEvery, hconf]
  constructor
  · intro d hd _ hlisted
    obtain ⟨dev, hdev⟩ := Option.isSome_iff_exists.mp (hraw d hd)
    refine ⟨dev, hdev, own_paths_count ?_ ?_⟩
    · exact hown.sublist (List.filter_sublist.map _)
    · exact List.mem_filterMap.mpr ⟨d, List.mem_filter.mpr ⟨hd, hlisted⟩, hdev⟩
  · intro dev hdev
    obtain ⟨d, hd, hpath⟩ := List.mem_filterMap.mp hdev
    obtain ⟨hd, hlisted⟩ := List.mem_filter.mp hd
    exact ⟨d, hd, hreadable d hd, hlisted, hpath⟩

def slice65Table : Table :=
  [(ascii "keyboards", .array [.table
      [(ascii "product", .leaf (some 0x707C) none), (ascii "vendor", .leaf (some 0x504B) none)]]),
    (ascii "keys", .table [(ascii "n", .leaf none (some (ascii "John Doe")))])]

lemma slice65Table_valid : Valid slice65Table where
  keyboards := ⟨_, rfl, by simp⟩
  keys := ⟨_, rfl, by decide⟩

def slice65 (address descriptor : ℕ) : UsbDevice :=
  ⟨address, 0x504B, 0x707C, 0, -descriptor, [⟨address, rawUsageId, rawUsagePage⟩]⟩

def quietRuns (order : List UsbDevice) (_ : ℕ) : Hid × Env := (busHid order, Env.prompt fun _ => 33)

theorem scan_misses_keyboards :
    -- two equal keyboards, and a keyboard behind a device whose descriptor cannot be read
    ¬ ReachesEvery slice65Table [slice65 1 0, slice65 2 0]
        (configureIfConnected (quietRuns [slice65 1 0, slice65 2 0]) slice65Table
          (some [slice65 1 0, slice65 2 0])) ∧
      ¬ ReachesEvery slice65Table [slice65 1 1, slice65 2 0]
        (configureIfConnected (quietRuns [slice65 1 1, slice65 2 0]) slice65Table
          (some [slice65 1 1, slice65 2 0])) := by
  constructor
  · intro h
    obtain ⟨dev, hdev, hcount⟩ := h.1 (slice65 2 0) (by simp) rfl rfl
    obtain rfl : 2 = dev := Option.some.inj hdev
    rw [configureIfConnected, (scanLoop_served slice65Table_valid (fun _ => serves_busHid _)
      (by decide) 0).2.1] at hcount
    revert hcount
    decide
  · intro h
    obtain ⟨dev, hdev, hcount⟩ := h.1 (slice65 2 0) (by simp) rfl rfl
    obtain rfl : 2 = dev := Option.some.inj hdev
    rw [configureIfConnected, (scanLoop_served slice65Table_valid
      (fun _ => serves_busHid [slice65 1 1, slice65 2 0]) (by decide) 0).2.1] at hcount
    revert hcount
    decide

-- two of the keyboards of the README
def readmeTable : Table :=
  [(ascii "keyboards", .array [
      .table [(ascii "product", .leaf (some 0x707C) none), (ascii "vendor", .leaf (some 0x504B) none)],
      .table [(ascii "product", .leaf (some 0x1226) none), (ascii "vendor", .leaf (some 0x4B42) none)]]),
    (ascii "keys", .table [(ascii "e", .leaf none (some (ascii "jdoe@server.com"))),
      (ascii "n", .leaf none (some (ascii "John Doe")))])]

lemma readmeTable_valid : Valid readmeTable where
  keyboards := ⟨_, rfl, by simp⟩
  keys := ⟨_, rfl, by decide⟩

def desktop : List UsbDevice :=
  [⟨1, 0x4B42, 0x1226, 0, 0, [⟨10, 6, 1⟩, ⟨11, rawUsageId, rawUsagePage⟩]⟩,
    ⟨2, 0x6400, 0x2371, 0, 0, [⟨20, rawUsageId, rawUsagePage⟩]⟩, slice65 3 0]

-- the device in the middle is not listed, and hidapi lists the three the other way round
theorem scan_configures_first_slice65 :
    ReachesEvery readmeTable desktop
      (configureIfConnected (quietRuns desktop.reverse) readmeTable (some desktop)) := by
  refine (scan_configures_first readmeTable desktop desktop.reverse (quietRuns desktop.reverse)
    readmeTable_valid (List.reverse_perm desktop) (fun _ => serves_busHid _) ?_).2.2.2 ?_ ?_ ?_
  · decide
  · decide
  · decide
  · decide

end Reach

end KbReg.Detect
