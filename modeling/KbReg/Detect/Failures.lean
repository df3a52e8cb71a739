import KbReg.Detect.Startup
import KbReg.Lib.Runs

namespace KbReg.Detect

open KbReg.Host KbReg.Protocol

section Shape

def Toml.names (device : UsbDevice) : Toml → Bool
  | .table keyboard =>
    (node keyboard "vendor").bind Toml.int64 = some (device.idVendor.toNat : ℤ) &&
      (node keyboard "product").bind Toml.int64 = some (device.idProduct.toNat : ℤ)
  | _ => false

def Searchable (tbl : Table) (device : UsbDevice) : Prop :=
  ∃ items, node tbl "keyboards" = some (.array items) ∧
    ∀ i ∈ items.takeWhile (fun i => !i.names device), ∃ t, i = .table t

variable {tbl : Table} {device : UsbDevice}

lemma customLoop_table (t : Table) (items : List Toml) :
    customLoop device.idVendor.toNat device.idProduct.toNat (.table t :: items) =
      if (Toml.table t).names device then .ok true
      else customLoop device.idVendor.toNat device.idProduct.toNat items := by
  simp only [customLoop, Toml.asTable, Toml.names, Bool.and_eq_true, decide_eq_true_eq]
  split_ifs <;> simp_all

lemma customLoop_ok_iff (items : List Toml) :
    (∃ b, customLoop device.idVendor.toNat device.idProduct.toNat items = .ok b) ↔
      ∀ i ∈ items.takeWhile (fun i => !i.names device), ∃ t, i = .table t := by
  induction items with
  | nil => simp [customLoop]
  | cons i items ih =>
    cases i with
    | table t =>
      rw [customLoop_table, List.takeWhile_cons]
      cases h : (Toml.table t).names device with
      | true => simp
      | false => simpa using ih
    | array _ => simp [customLoop, Toml.asTable, Toml.names]
    | leaf _ _ => simp [customLoop, Toml.asTable, Toml.names]

lemma customLoop_stop {vendorId productId : ℤ} {items : List Toml} {stop : Stop}
    (h : customLoop vendorId productId items = .error stop) : stop = .nullPointer := by
  induction items with
  | nil => cases h
  | cons i items ih =>
    rw [customLoop] at h
    split at h
    · exact (Except.error.inj h).symm
    · split_ifs at h
      · exact ih h
      · exact ih h

lemma isCustomKeyboard_stop {vendorId productId : ℤ} {stop : Stop}
    (h : isCustomKeyboard tbl vendorId productId = .error stop) : stop = .nullPointer := by
  rw [isCustomKeyboard] at h
  split at h
  · exact (Except.error.inj h).symm
  · exact customLoop_stop h

lemma asArray_eq_some {t : Toml} {items : List Toml} : t.asArray = some items ↔ t = .array items := by
  cases t <;> simp [Toml.asArray]

lemma asTable_eq_some {t : Toml} {entries : Table} : t.asTable = some entries ↔ t = .table entries := by
  cases t <;> simp [Toml.asTable]

lemma searchable_iff : Searchable tbl device ↔
    ∃ b, isCustomKeyboard tbl device.idVendor.toNat device.idProduct.toNat = .ok b := by
  rw [isCustomKeyboard, Searchable]
  cases h : (node tbl "keyboards").bind Toml.asArray with
  | none =>
    simp only [reduceCtorEq, exists_false, iff_false]
    rintro ⟨items, hitems, _⟩
    simp [hitems, Toml.asArray] at h
  | some items =>
    obtain ⟨t, ht, ha⟩ := Option.bind_eq_some_iff.mp h
    rw [asArray_eq_some.mp ha] at ht
    simp only [ht, Option.some.injEq, Toml.array.injEq, exists_eq_left', customLoop_ok_iff]

lemma not_searchable {stop : Stop}
    (hc : isCustomKeyboard tbl device.idVendor.toNat device.idProduct.toNat = .error stop) :
    ¬ Searchable tbl device := by
  intro hsearch
  obtain ⟨b, hb⟩ := searchable_iff.mp hsearch
  rw [hc] at hb
  cases hb

lemma keyTexts_isSome_iff : keyTexts tbl ≠ none ↔ ∃ entries, node tbl "keys" = some (.table entries) := by
  rw [keyTexts, ne_eq, Option.map_eq_none_iff, ← ne_eq, Option.ne_none_iff_exists']
  simp only [Option.bind_eq_some_iff, asTable_eq_some, exists_eq_right]

def FilledKeys (tbl : Table) : Prop :=
  ∃ entries, node tbl "keys" = some (.table entries) ∧ ∀ pair ∈ entries, pair.1 ≠ []

lemma filledKeys_iff : FilledKeys tbl ↔
    ∃ pairs, keyTexts tbl = some pairs ∧ ∀ pair ∈ pairs, pair.1 ≠ [] := by
  constructor
  · rintro ⟨entries, hentries, hkeys⟩
    refine ⟨entries.map fun pair => (pair.1, pair.2.valueOr []), ?_, ?_⟩
    · simp [keyTexts, hentries, Toml.asTable]
    · intro pair hm
      obtain ⟨entry, he, rfl⟩ := List.mem_map.mp hm
      exact hkeys entry he
  · rintro ⟨pairs, hpairs, hkeys⟩
    obtain ⟨entries, hentries⟩ := keyTexts_isSome_iff.mp (Option.ne_none_iff_exists'.mpr ⟨pairs, hpairs⟩)
    refine ⟨entries, hentries, ?_⟩
    intro entry he
    simp only [keyTexts, hentries, Option.bind_some, Toml.asTable, Option.map_some, Option.some.injEq]
      at hpairs
    apply hkeys (entry.1, entry.2.valueOr [])
    rw [← hpairs]
    exact List.mem_map_of_mem he

end Shape

section Callback

variable {tbl : Table} {hid : Hid} {env : Env} {device : UsbDevice}

lemma hotplugCallback_iff (P : Effect → Prop) (hquiet : P ⟨[], none⟩)
    (hnull : ¬ P ⟨[], some .nullPointer⟩) :
    P (hotplugCallback hid env tbl device) ↔ (device.readable → Searchable tbl device ∧
      (listed tbl device → P (configureKeyboard tbl device hid env))) := by
  cases verdict tbl device with
  | unreadable hr =>
    rw [hotplugCallback_unreadable hr]
    exact iff_of_true hquiet fun hread => absurd hread hr
  | faulty stop hr hc =>
    obtain rfl := isCustomKeyboard_stop hc
    simp [hotplugCallback_faulty hr hc, searchable_iff, hc, hr, hnull]
  | unlisted hr hc =>
    simp [hotplugCallback_unlisted hr hc, searchable_iff, listed_of_ok hc, hc, hquiet]
  | listed hr hc => simp [hotplugCallback_listed hr hc, searchable_iff, listed_of_ok hc, hc, hr]

end Callback

section Handles

inductive HidState
  | idle
  | ready
  | opened (dev : Path)
  deriving DecidableEq, Repr

/-- The use of hidapi that gives everything back: a handle is closed before the next one is opened, and
no call stands outside `hid_init` and `hid_exit`. -/
def hidStep : HidState → Action → Option HidState
  | s, .configure _ => some s
  | s, .freedList => some s
  | .idle, .hidInit rc => some (if rc = 0 then .ready else .idle)
  | .ready, .opened dev => some (.opened dev)
  | .opened dev, .wrote dev' _ => if dev' = dev then some (.opened dev) else none
  | .opened dev, .closed dev' => if dev' = dev then some .ready else none
  | .ready, .hidExit => some .idle
  | _, _ => none

def HidState.inits : HidState → ℕ
  | .idle => 0
  | _ => 1

def HidState.handles (dev : Path) : HidState → ℕ
  | .opened dev' => if dev' = dev then 1 else 0
  | _ => 0

lemma hidStep_counts {s t : HidState} {a : Action} (h : hidStep s a = some t) (dev : Path) :
    [a].count (.hidInit 0) + s.inits = [a].count .hidExit + t.inits ∧
      [a].count (.opened dev) + s.handles dev = [a].count (.closed dev) + t.handles dev := by
  simp only [List.count_singleton, beq_iff_eq]
  cases a <;> cases s <;> grind [hidStep, HidState.inits, HidState.handles]

structure Handled (obtained : ℕ) (e : Effect) : Prop where
  returns : e.stop = none
  balanced : Runs.run hidStep .idle e.actions = some .idle
  freed : e.actions.count .freedList = obtained

lemma Handled.counts {obtained : ℕ} {e : Effect} (h : Handled obtained e) (dev : Path) :
    e.actions.count (.hidInit 0) = e.actions.count .hidExit ∧
      e.actions.count (.opened dev) = e.actions.count (.closed dev) :=
  ⟨Runs.balance (fun hstep => (hidStep_counts hstep dev).1) h.balanced,
    Runs.balance (fun hstep => (hidStep_counts hstep dev).2) h.balanced⟩

def Survives (hid : Hid) (tbl : Table) (device : UsbDevice) : Prop :=
  hid.init = 0 → ∀ dev, openRaw hid device.idVendor.toNat device.idProduct.toNat = some dev →
    hid.manufacturer dev ≠ none ∧ hid.product dev ≠ none ∧
      ∃ entries, node tbl "keys" = some (.table entries)

def Spares (hid : Hid) (tbl : Table) (device : UsbDevice) : Prop :=
  hid.init = 0 → ∀ dev, openRaw hid device.idVendor.toNat device.idProduct.toNat = some dev →
    hid.manufacturer dev ≠ none ∧ hid.product dev ≠ none ∧ FilledKeys tbl

def NonEmptyKeys (tbl : Table) : Prop := ∀ pairs, keyTexts tbl = some pairs → ∀ pair ∈ pairs, pair.1 ≠ []

variable {tbl : Table} {hid : Hid} {device : UsbDevice} {e : Effect}

lemma Outcome.handled (h : Outcome hid tbl device e) (hstop : e.stop = none) : Handled 0 e := by
  cases h with
  | uninitialized hinit => exact ⟨rfl, by simp [Runs.run, hidStep, hinit], by simp⟩
  | unopened => exact ⟨rfl, rfl, by simp⟩
  | nameless => cases hstop
  | keyless => cases hstop
  | emptyKey => cases hstop
  | loaded => exact ⟨rfl, by simp [Runs.run, hidStep], by simp⟩

lemma Outcome.spares_iff (h : Outcome hid tbl device e) : e.stop = none ↔ Spares hid tbl device := by
  cases h with
  | uninitialized hinit => exact iff_of_true rfl fun hok => absurd hok hinit
  | unopened _ hraw =>
    refine iff_of_true rfl fun _ dev hdev => ?_
    rw [hraw] at hdev
    cases hdev
  | nameless dev hinit hraw hnames =>
    refine iff_of_false nofun fun hs => hnames ?_
    obtain ⟨hv, hp, _⟩ := hs hinit dev hraw
    exact ⟨hv, hp⟩
  | keyless dev hopens hpairs =>
    refine iff_of_false nofun fun hs => ?_
    obtain ⟨pairs, hsome, _⟩ := filledKeys_iff.mp (hs hopens.init dev hopens.raw).2.2
    rw [hpairs] at hsome
    cases hsome
  | emptyKey dev pairs hopens hpairs hempty =>
    refine iff_of_false nofun fun hs => hempty ?_
    obtain ⟨pairs', hsome, hkeys⟩ := filledKeys_iff.mp (hs hopens.init dev hopens.raw).2.2
    rw [hpairs] at hsome
    obtain rfl := Option.some.inj hsome
    exact hkeys
  | loaded dev pairs sent hopens hpairs hkeys =>
    refine iff_of_true rfl fun _ dev' hdev => ?_
    rw [hopens.raw] at hdev
    obtain rfl := Option.some.inj hdev
    exact ⟨hopens.names.1, hopens.names.2, filledKeys_iff.mpr ⟨pairs, hpairs, hkeys⟩⟩

lemma survives_iff_spares (hkeys : NonEmptyKeys tbl) : Survives hid tbl device ↔ Spares hid tbl device := by
  have hfilled : (∃ entries, node tbl "keys" = some (.table entries)) ↔ FilledKeys tbl := by
    rw [filledKeys_iff, ← keyTexts_isSome_iff, Option.ne_none_iff_exists']
    exact exists_congr fun pairs => ⟨fun h => ⟨h, hkeys pairs h⟩, And.left⟩
  simp only [Survives, Spares, hfilled]

lemma Outcome.returns_iff (h : Outcome hid tbl device e) (hkeys : NonEmptyKeys tbl) :
    e.stop = none ↔ Survives hid tbl device :=
  h.spares_iff.trans (survives_iff_spares hkeys).symm

lemma handled_iff_returns (h : Outcome hid tbl device e) : Handled 0 e ↔ e.stop = none :=
  ⟨Handled.returns, h.handled⟩

end Handles

section Scan

variable {tbl : Table} {runs : ℕ → Hid × Env} {devices : List UsbDevice}

def ScanSurvives (runs : ℕ → Hid × Env) (tbl : Table) (n : ℕ) (devices : List UsbDevice) : Prop :=
  (∀ d ∈ devices.takeWhile UsbDevice.readable, Searchable tbl d) ∧
    ∀ j d, ((devices.takeWhile UsbDevice.readable).filter (listed tbl))[j]? = some d →
      Survives (runs (n + j)).1 tbl d

lemma Handled.andThen {obtained : ℕ} {a b : Effect} (ha : Handled 0 a) (hb : Handled obtained b) :
    Handled obtained (a.andThen b) := by
  rw [Effect.andThen, ha.returns]
  refine ⟨hb.returns, ?_, ?_⟩
  · rw [Runs.run_append, ha.balanced]
    exact hb.balanced
  · rw [List.count_append, ha.freed, hb.freed, Nat.zero_add]

lemma scanLoop_handled (n : ℕ) (h : (scanLoop runs tbl n devices).stop = none) :
    Handled 1 (scanLoop runs tbl n devices) := by
  induction devices generalizing n with
  | nil => exact ⟨rfl, rfl, rfl⟩
  | cons d devices ih =>
    cases verdict tbl d with
    | unreadable hr =>
      rw [scanLoop_unreadable n hr]
      exact ⟨rfl, rfl, rfl⟩
    | faulty stop hr hc =>
      rw [scanLoop_faulty n hr hc] at h
      cases h
    | unlisted hr hc =>
      rw [scanLoop_unlisted n hr hc] at h ⊢
      exact ih n h
    | listed hr hc =>
      rw [scanLoop_listed n hr hc] at h ⊢
      obtain ⟨hfirst, hrest⟩ := andThen_stop.mp h
      exact ((configureKeyboard_outcome _ _ _ _).handled hfirst).andThen (ih (n + 1) hrest)

lemma scanSurvives_unreadable (n : ℕ) {d : UsbDevice} (hd : ¬ d.readable) :
    ScanSurvives runs tbl n (d :: devices) := by
  simp [ScanSurvives, hd]

lemma scanSurvives_unlisted (n : ℕ) {d : UsbDevice} (hd : d.readable) (hl : ¬ listed tbl d) :
    ScanSurvives runs tbl n (d :: devices) ↔ Searchable tbl d ∧ ScanSurvives runs tbl n devices := by
  simp only [ScanSurvives, List.takeWhile_cons_of_pos hd, List.filter_cons_of_neg hl,
    List.forall_mem_cons, and_assoc]

lemma scanSurvives_listed (n : ℕ) {d : UsbDevice} (hd : d.readable) (hl : listed tbl d) :
    ScanSurvives runs tbl n (d :: devices) ↔
      Searchable tbl d ∧ Survives (runs n).1 tbl d ∧ ScanSurvives runs tbl (n + 1) devices := by
  simp only [ScanSurvives, List.takeWhile_cons_of_pos hd, List.filter_cons_of_pos hl,
    List.forall_mem_cons]
  constructor
  · rintro ⟨⟨hsearch, hothers⟩, hsurvive⟩
    refine ⟨hsearch, hsurvive 0 d rfl, hothers, ?_⟩
    intro j x hx
    rw [Nat.add_assoc, Nat.add_comm 1]
    exact hsurvive (j + 1) x hx
  · rintro ⟨hsearch, hfirst, hothers, hsurvive⟩
    refine ⟨⟨hsearch, hothers⟩, ?_⟩
    intro j x hx
    cases j with
    | zero =>
      obtain rfl := Option.some.inj hx
      exact hfirst
    | succ j =>
      rw [Nat.add_comm j, ← Nat.add_assoc]
      exact hsurvive j x hx

lemma scanLoop_returns_iff (hkeys : NonEmptyKeys tbl) (n : ℕ) :
    (scanLoop runs tbl n devices).stop = none ↔ ScanSurvives runs tbl n devices := by
  induction devices generalizing n with
  | nil => simp [scanLoop, ScanSurvives]
  | cons d devices ih =>
    cases verdict tbl d with
    | unreadable hr =>
      rw [scanLoop_unreadable n hr]
      exact iff_of_true rfl (scanSurvives_unreadable n hr)
    | faulty stop hr hc =>
      rw [scanLoop_faulty n hr hc]
      exact iff_of_false (by simp) fun h => not_searchable hc (h.1 d (by simp [hr]))
    | unlisted hr hc =>
      rw [scanLoop_unlisted n hr hc, scanSurvives_unlisted n hr (by simp [listed_of_ok hc]), ih n,
        and_iff_right (searchable_iff.mpr ⟨false, hc⟩)]
    | listed hr hc =>
      rw [scanLoop_listed n hr hc, scanSurvives_listed n hr (listed_of_ok hc), andThen_stop, ih (n + 1),
        (configureKeyboard_outcome _ _ _ _).returns_iff hkeys,
        and_iff_right (searchable_iff.mpr ⟨true, hc⟩)]

/-- The daemon outlives every failure, except that it frees a list that it did not get, ends itself when a
name cannot be read, and follows a null pointer when the config lacks an array or a table. -/
theorem failures_handled_iff (runs : ℕ → Hid × Env) (tbl : Table) (devices : Option (List UsbDevice))
    (hid : Hid) (env : Env) (device : UsbDevice) (hkeys : NonEmptyKeys tbl) :
    (Handled (if devices.isSome then 1 else 0) (configureIfConnected runs tbl devices) ↔
      ∃ list, devices = some list ∧ ScanSurvives runs tbl 0 list) ∧
    (Handled 0 (hotplugCallback hid env tbl device) ↔
      (device.readable → Searchable tbl device ∧ (listed tbl device → Survives hid tbl device))) ∧
    ∀ e obtained, Handled obtained e → ∀ dev,
      e.actions.count (.hidInit 0) = e.actions.count .hidExit ∧
        e.actions.count (.opened dev) = e.actions.count (.closed dev) := by
  refine ⟨?_, ?_, fun _ _ => Handled.counts⟩
  · cases devices with
    | none =>
      exact iff_of_false (fun h => nomatch h.returns) (by simp)
    | some list =>
      have hscan : Handled 1 (configureIfConnected runs tbl (some list)) ↔
          ScanSurvives runs tbl 0 list := by
        rw [← scanLoop_returns_iff hkeys]
        exact ⟨Handled.returns, scanLoop_handled 0⟩
      simpa using hscan
  · have houtcome := configureKeyboard_outcome hid tbl device env
    rw [hotplugCallback_iff (Handled 0) ⟨rfl, rfl, rfl⟩ (fun h => nomatch h.returns),
      handled_iff_returns houtcome, houtcome.returns_iff hkeys]

def muteHid (order : List UsbDevice) : Hid := { busHid order with manufacturer := fun _ => none }

theorem failures_end_daemon :
    -- the list of devices cannot be read, or the name of a listed keyboard
    ¬ Handled 0 (configureIfConnected (quietRuns []) slice65Table none) ∧
      ¬ Handled 0 (hotplugCallback (muteHid [slice65 1 0]) (Env.prompt fun _ => 33) slice65Table
        (slice65 1 0)) := by
  constructor
  · intro h
    exact nomatch h.returns
  · intro h
    exact absurd h.returns (by decide)

theorem failures_handled_slice65 :
    Handled 1 (configureIfConnected (fun _ => (muteHid [], Env.prompt fun _ => 33)) slice65Table
      (some [slice65 1 0, slice65 2 1, slice65 3 0])) := by
  refine (failures_handled_iff (fun _ => (muteHid [], Env.prompt fun _ => 33)) slice65Table
    (some [slice65 1 0, slice65 2 1, slice65 3 0]) (muteHid []) (Env.prompt fun _ => 33) (slice65 1 0)
    ?_).1.mpr ⟨_, rfl, ?_, ?_⟩
  · rintro pairs ⟨⟩
    decide
  · intro d hd
    exact searchable_iff.mpr (slice65Table_valid.isCustomKeyboard _ _)
  · rintro j d _ _ dev ⟨⟩

end Scan

section Safety

variable {tbl : Table} {hid : Hid} {env : Env} {device : UsbDevice}

def Effect.Safe (e : Effect) : Prop := e.stop ≠ some .nullPointer ∧ e.stop ≠ some .outOfRange

instance (e : Effect) : Decidable e.Safe := inferInstanceAs (Decidable (_ ∧ _))

lemma Outcome.safe_iff {e : Effect} (h : Outcome hid tbl device e) :
    e.Safe ↔ ∀ dev, Opens hid device dev → FilledKeys tbl := by
  cases h with
  | uninitialized hinit => exact iff_of_true ⟨nofun, nofun⟩ fun _ hopens => absurd hopens.init hinit
  | unopened _ hraw =>
    refine iff_of_true ⟨nofun, nofun⟩ fun dev hopens => ?_
    rw [hopens.raw] at hraw
    cases hraw
  | nameless dev _ hraw hnames =>
    refine iff_of_true ⟨by simp, by simp⟩ fun dev' hopens => ?_
    rw [hopens.raw] at hraw
    obtain rfl := Option.some.inj hraw
    exact absurd hopens.names hnames
  | keyless dev hopens hpairs =>
    refine iff_of_false (fun hsafe => hsafe.1 rfl) fun hfilled => ?_
    obtain ⟨pairs, hsome, _⟩ := filledKeys_iff.mp (hfilled dev hopens)
    rw [hpairs] at hsome
    cases hsome
  | emptyKey dev pairs hopens hpairs hempty =>
    refine iff_of_false (fun hsafe => hsafe.2 rfl) fun hfilled => hempty ?_
    obtain ⟨pairs', hsome, hkeys⟩ := filledKeys_iff.mp (hfilled dev hopens)
    rw [hpairs] at hsome
    obtain rfl := Option.some.inj hsome
    exact hkeys
  | loaded dev pairs sent hopens hpairs hkeys =>
    exact iff_of_true ⟨nofun, nofun⟩ fun _ _ => filledKeys_iff.mpr ⟨pairs, hpairs, hkeys⟩

def openHid : Hid :=
  ⟨0, fun _ _ => [⟨0, rawUsageId, rawUsagePage⟩], fun _ => true, fun _ => some [], fun _ => some []⟩

lemma opens_openHid (device : UsbDevice) : Opens openHid device 0 :=
  ⟨rfl, rfl, Option.some_ne_none _, Option.some_ne_none _⟩

theorem config_safe_iff (tbl : Table) (device : UsbDevice) :
    (∀ hid env, (hotplugCallback hid env tbl device).Safe ↔
      (device.readable → Searchable tbl device ∧
        (listed tbl device → ∀ dev, Opens hid device dev → FilledKeys tbl))) ∧
    ((∀ hid env, (hotplugCallback hid env tbl device).Safe) ↔
      (device.readable → Searchable tbl device ∧ (listed tbl device → FilledKeys tbl))) := by
  have hcall (hid : Hid) (env : Env) : (hotplugCallback hid env tbl device).Safe ↔
      (device.readable → Searchable tbl device ∧
        (listed tbl device → ∀ dev, Opens hid device dev → FilledKeys tbl)) := by
    have houtcome := configureKeyboard_outcome hid tbl device env
    rw [hotplugCallback_iff Effect.Safe ⟨nofun, nofun⟩ (fun hsafe => hsafe.1 rfl), houtcome.safe_iff]
  refine ⟨hcall, ?_, ?_⟩
  · intro h hr
    obtain ⟨hsearch, hlisted⟩ := (hcall openHid (Env.prompt fun _ => 33)).mp (h _ _) hr
    exact ⟨hsearch, fun hl => hlisted hl 0 (opens_openHid device)⟩
  · intro h hid env
    rw [hcall]
    intro hr
    exact ⟨(h hr).1, fun hl _ _ => (h hr).2 hl⟩

def slice65Item : Toml :=
  .table [(ascii "product", .leaf (some 0x707C) none), (ascii "vendor", .leaf (some 0x504B) none)]

def slice65Arrives (tbl : Table) : Effect :=
  hotplugCallback openHid (Env.prompt fun _ => 33) tbl (slice65 1 0)

theorem config_unsafe :
    -- an empty document, a keyboard that is not a table, a document without keys, and an empty key
    ¬ (slice65Arrives []).Safe ∧
      ¬ (slice65Arrives [(ascii "keyboards", .array [.leaf (some 1) none])]).Safe ∧
      ¬ (slice65Arrives [(ascii "keyboards", .array [slice65Item])]).Safe ∧
      ¬ (slice65Arrives [(ascii "keyboards", .array [slice65Item]),
        (ascii "keys", .table [([], .leaf none (some (ascii "John Doe")))])]).Safe := by
  decide

end Safety

end KbReg.Detect
