import KbReg.Detect.Failures

/-! The two ways to `configure_keyboard`: the scan at startup and the callback for arrivals. -/

namespace KbReg.Detect

open KbReg.Host KbReg.Protocol

/-- The scan gets past these devices: it can read and look up each of them, and comes back from those that
it configures, the first of them with `runs n`. -/
def Reaches (runs : ℕ → Hid × Env) (tbl : Table) : ℕ → List UsbDevice → Prop
  | _, [] => True
  | n, x :: before => x.readable ∧ Searchable tbl x ∧
      if listed tbl x then Spares (runs n).1 tbl x ∧ Reaches runs tbl (n + 1) before
      else Reaches runs tbl n before

/-- `configure_keyboard` is called for the device in the list that the scan gets if and only if it is called
for it on its arrival, of which libusb tells the daemon if the arguments match. -/
def Agree (runs : ℕ → Hid × Env) (args : Arguments) (tbl : Table) (before after : List UsbDevice)
    (d : UsbDevice) (hid : Hid) (env : Env) : Prop :=
  .configure d ∈ (configureIfConnected runs tbl (some (before ++ d :: after))).actions ↔
    args.accepts d ∧ .configure d ∈ (hotplugCallback hid env tbl d).actions

variable {tbl : Table} {runs : ℕ → Hid × Env} {hid : Hid} {devices before after : List UsbDevice}
  {d x : UsbDevice}

section Head

variable (n : ℕ)

lemma reaches_unreadable (hr : ¬ x.readable) : ¬ Reaches runs tbl n (x :: before) := fun h => hr h.1

lemma reaches_faulty {stop : Stop}
    (hc : isCustomKeyboard tbl x.idVendor.toNat x.idProduct.toNat = .error stop) :
    ¬ Reaches runs tbl n (x :: before) := fun h => not_searchable hc h.2.1

lemma reaches_unlisted (hr : x.readable)
    (hc : isCustomKeyboard tbl x.idVendor.toNat x.idProduct.toNat = .ok false) :
    Reaches runs tbl n (x :: before) ↔ Reaches runs tbl n before := by
  have hsearch : Searchable tbl x := searchable_iff.mpr ⟨false, hc⟩
  simp [Reaches, hr, hsearch, listed_of_ok hc]

lemma reaches_listed (hr : x.readable)
    (hc : isCustomKeyboard tbl x.idVendor.toNat x.idProduct.toNat = .ok true) :
    Reaches runs tbl n (x :: before) ↔
      Spares (runs n).1 tbl x ∧ Reaches runs tbl (n + 1) before := by
  have hsearch : Searchable tbl x := searchable_iff.mpr ⟨true, hc⟩
  simp [Reaches, hr, hsearch, listed_of_ok hc]

end Head

lemma configure_mem (env : Env) : .configure d ∈ (configureKeyboard tbl x hid env).actions ↔ d = x :=
  (configureKeyboard_outcome hid tbl x env).configure_mem

lemma scanLoop_configure_mem (n : ℕ) (h : .configure d ∈ (scanLoop runs tbl n devices).actions) :
    d ∈ devices := by
  induction devices generalizing n with
  | nil => simp [scanLoop] at h
  | cons x devices ih =>
    cases verdict tbl x with
    | unreadable hr => simp [scanLoop_unreadable n hr] at h
    | faulty stop hr hc => simp [scanLoop_faulty n hr hc] at h
    | unlisted hr hc =>
      rw [scanLoop_unlisted n hr hc] at h
      exact List.mem_cons_of_mem _ (ih _ h)
    | listed hr hc =>
      rw [scanLoop_listed n hr hc, mem_andThen, configure_mem] at h
      rcases h with rfl | ⟨-, h⟩
      · exact List.mem_cons_self
      · exact List.mem_cons_of_mem _ (ih _ h)

lemma scanLoop_configures_iff (hb : d ∉ before) (ha : d ∉ after) (n : ℕ) :
    .configure d ∈ (scanLoop runs tbl n (before ++ d :: after)).actions ↔
      Reaches runs tbl n before ∧ d.readable ∧ listed tbl d := by
  induction before generalizing n with
  | nil =>
    have hrest (m : ℕ) : ¬ .configure d ∈ (scanLoop runs tbl m after).actions := fun h =>
      ha (scanLoop_configure_mem m h)
    rw [List.nil_append, Reaches, true_and]
    cases verdict tbl d with
    | unreadable hr => simp [scanLoop_unreadable n hr, hr]
    | faulty stop hr hc => simp [scanLoop_faulty n hr hc, listed, hc]
    | unlisted hr hc => simp [scanLoop_unlisted n hr hc, listed_of_ok hc, hrest]
    | listed hr hc => simp [scanLoop_listed n hr hc, listed_of_ok hc, hr, mem_andThen, configure_mem]
  | cons x before ih =>
    have hx : d ≠ x := fun he => hb (by simp [he])
    have hstep (m : ℕ) := ih (fun hm => hb (List.mem_cons_of_mem _ hm)) m
    rw [List.cons_append]
    cases verdict tbl x with
    | unreadable hr => simp [scanLoop_unreadable n hr, reaches_unreadable n hr]
    | faulty stop hr hc => simp [scanLoop_faulty n hr hc, reaches_faulty n hc]
    | unlisted hr hc =>
      rw [scanLoop_unlisted n hr hc, reaches_unlisted n hr hc]
      exact hstep n
    | listed hr hc =>
      rw [scanLoop_listed n hr hc, reaches_listed n hr hc, mem_andThen, configure_mem, or_iff_right hx,
        (configureKeyboard_outcome _ _ _ _).spares_iff, hstep (n + 1), and_assoc]

section Calls

lemma prefix_andThen (a b : Effect) : a.actions <+: (a.andThen b).actions := by
  rw [Effect.andThen]
  cases a.stop with
  | none => exact List.prefix_append _ _
  | some stop => exact List.prefix_refl _

lemma suffix_andThen {a b : Effect} (h : a.stop = none) : b.actions <:+ (a.andThen b).actions := by
  rw [Effect.andThen, h]
  exact List.suffix_append _ _

lemma scanLoop_calls (n : ℕ) (h : .configure d ∈ (scanLoop runs tbl n devices).actions) :
    ∃ m, (configureKeyboard tbl d (runs m).1 (runs m).2).actions <:+:
      (scanLoop runs tbl n devices).actions := by
  induction devices generalizing n with
  | nil => simp [scanLoop] at h
  | cons x devices ih =>
    cases verdict tbl x with
    | unreadable hr => simp [scanLoop_unreadable n hr] at h
    | faulty stop hr hc => simp [scanLoop_faulty n hr hc] at h
    | unlisted hr hc =>
      rw [scanLoop_unlisted n hr hc] at h ⊢
      exact ih n h
    | listed hr hc =>
      rw [scanLoop_listed n hr hc, mem_andThen, configure_mem] at h
      rw [scanLoop_listed n hr hc]
      rcases h with rfl | ⟨hstop, h⟩
      · exact ⟨n, (prefix_andThen _ _).isInfix⟩
      · obtain ⟨m, hm⟩ := ih (n + 1) h
        exact ⟨m, hm.trans (suffix_andThen hstop).isInfix⟩

lemma hotplugCallback_configures_iff (env : Env) :
    .configure d ∈ (hotplugCallback hid env tbl d).actions ↔ d.readable ∧ listed tbl d := by
  cases verdict tbl d with
  | unreadable hr => simp [hotplugCallback_unreadable hr, hr]
  | faulty stop hr hc => simp [hotplugCallback_faulty hr hc, listed, hc]
  | unlisted hr hc => simp [hotplugCallback_unlisted hr hc, listed_of_ok hc]
  | listed hr hc => simp [hotplugCallback_listed hr hc, listed_of_ok hc, hr, configure_mem]

lemma hotplugCallback_calls {env : Env} (h : .configure d ∈ (hotplugCallback hid env tbl d).actions) :
    hotplugCallback hid env tbl d = configureKeyboard tbl d hid env := by
  obtain ⟨hr, hl⟩ := (hotplugCallback_configures_iff env).mp h
  cases verdict tbl d with
  | unreadable hr' => exact absurd hr hr'
  | faulty stop _ hc => simp [listed, hc] at hl
  | unlisted _ hc => simp [listed_of_ok hc] at hl
  | listed _ hc => exact hotplugCallback_listed hr hc

end Calls

theorem startup_agrees_iff (runs : ℕ → Hid × Env) (args : Arguments) (tbl : Table)
    (before after : List UsbDevice) (d : UsbDevice) (hid : Hid) (env : Env) (hb : d ∉ before)
    (ha : d ∉ after) :
    (Agree runs args tbl before after d hid env ↔
      (d.readable → listed tbl d → (Reaches runs tbl 0 before ↔ args.accepts d))) ∧
    (.configure d ∈ (configureIfConnected runs tbl (some (before ++ d :: after))).actions ↔
      Reaches runs tbl 0 before ∧ d.readable ∧ listed tbl d) ∧
    (.configure d ∈ (hotplugCallback hid env tbl d).actions ↔ d.readable ∧ listed tbl d) ∧
    (.configure d ∈ (configureIfConnected runs tbl (some (before ++ d :: after))).actions →
      ∃ n, (configureKeyboard tbl d (runs n).1 (runs n).2).actions <:+:
        (configureIfConnected runs tbl (some (before ++ d :: after))).actions) ∧
    (.configure d ∈ (hotplugCallback hid env tbl d).actions →
      hotplugCallback hid env tbl d = configureKeyboard tbl d hid env) := by
  have hscan : .configure d ∈ (configureIfConnected runs tbl (some (before ++ d :: after))).actions ↔ _ :=
    scanLoop_configures_iff hb ha 0
  have harrive : .configure d ∈ (hotplugCallback hid env tbl d).actions ↔ _ :=
    hotplugCallback_configures_iff env
  refine ⟨?_, hscan, harrive, scanLoop_calls 0, hotplugCallback_calls⟩
  rw [Agree, hscan, harrive]
  constructor
  · intro h hr hl
    constructor
    · intro hreach
      exact (h.mp ⟨hreach, hr, hl⟩).1
    · intro hacc
      exact (h.mpr ⟨hacc, hr, hl⟩).1
  · intro h
    constructor
    · rintro ⟨hreach, hr, hl⟩
      exact ⟨(h hr hl).mp hreach, hr, hl⟩
    · rintro ⟨hacc, hr, hl⟩
      exact ⟨(h hr hl).mpr hacc, hr, hl⟩

theorem startup_disagrees :
    -- an argument for another vendor, and a device in front whose descriptor cannot be read
    ¬ Agree (quietRuns [slice65 1 0]) ⟨0x4B42, matchAny⟩ slice65Table [] [] (slice65 1 0)
        (busHid [slice65 1 0]) (Env.prompt fun _ => 33) ∧
      ¬ Agree (quietRuns [slice65 1 1, slice65 2 0]) noArguments slice65Table [slice65 1 1] []
        (slice65 2 0) (busHid [slice65 1 1, slice65 2 0]) (Env.prompt fun _ => 33) := by
  constructor
  · intro h
    have hscan : .configure (slice65 1 0) ∈ (configureIfConnected (quietRuns [slice65 1 0]) slice65Table
        (some ([] ++ slice65 1 0 :: []))).actions :=
      (scanLoop_configures_iff (by simp) (by simp) 0).mpr ⟨trivial, rfl, rfl⟩
    exact absurd (h.mp hscan).1 (by decide)
  · intro h
    have harrive : .configure (slice65 2 0) ∈ (hotplugCallback (busHid [slice65 1 1, slice65 2 0])
        (Env.prompt fun _ => 33) slice65Table (slice65 2 0)).actions :=
      (hotplugCallback_configures_iff _).mpr ⟨rfl, rfl⟩
    have hscan := (scanLoop_configures_iff (by decide) (by simp) 0).mp (h.mpr ⟨by decide, harrive⟩)
    exact absurd hscan.1.1 (by decide)

-- another listed keyboard and an unlisted device stand in front of it
theorem startup_agrees_slice65 :
    Agree (quietRuns desktop) ⟨0x504B, matchAny⟩ readmeTable (desktop.take 2) [] (slice65 3 0)
      (busHid [slice65 3 0]) (Env.prompt fun _ => 33) := by
  refine (startup_agrees_iff (quietRuns desktop) ⟨0x504B, matchAny⟩ readmeTable (desktop.take 2) []
    (slice65 3 0) (busHid [slice65 3 0]) (Env.prompt fun _ => 33) (by decide) (by simp)).1.mpr
      fun _ _ => iff_of_true ?_ (by decide)
  have hspares : Spares (busHid desktop) readmeTable ⟨1, 0x4B42, 0x1226, 0, 0,
      [⟨10, 6, 1⟩, ⟨11, rawUsageId, rawUsagePage⟩]⟩ :=
    fun _ _ _ => ⟨Option.some_ne_none _, Option.some_ne_none _, readmeTable_valid.keys⟩
  exact (reaches_listed 0 rfl rfl).mpr ⟨hspares, (reaches_unlisted 1 rfl rfl).mpr trivial⟩

end KbReg.Detect
