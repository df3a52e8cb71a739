import KbReg.Detect.Failures

namespace KbReg.Detect

open KbReg.Host KbReg.Protocol

inductive Deed
  | libusbInit (rc : ℤ)
  | libusbExit
  | error (line : String)
  | print (line : String)
  | did (action : Action)
  deriving DecidableEq

inductive Ending
  | returned (status : ℤ)
  | stopped (stop : Stop)
  | listening
  deriving DecidableEq

structure Process where
  deeds : List Deed
  ending : Ending

def Process.after (p : Process) (deeds : List Deed) : Process := ⟨deeds ++ p.deeds, p.ending⟩

def Effect.thenGo (e : Effect) (p : Process) : Process :=
  match e.stop with
  | some stop => ⟨e.actions.map .did, .stopped stop⟩
  | none => p.after (e.actions.map .did)

structure Arrival where
  hid : Hid
  env : Env
  tbl : Table
  device : UsbDevice

/-- One call of `libusb_handle_events`. `checked` and `looped` are `exit_flag` as it is read after the call
and by the condition of the loop. -/
structure Turn where
  arrivals : List Arrival
  rc : ℤ
  checked : Bool
  looped : Bool
  latched : checked → looped

structure System where
  home : Option String
  pathExists : String → Bool
  strerror : ℤ → String
  libusbInit : ℤ
  runs : ℕ → Hid × Env
  tbl : Table
  devices : Option (List UsbDevice)
  hasHotplug : Bool
  registered : ℤ
  signalled : Bool

def configPath (home : String) : String := home ++ "/.kb_detect.toml"

def logFolderPath (home : String) : String := home ++ "/.local/log"

variable (sys : System) (args : Arguments)

def handleEvents : List Arrival → Effect
  | [] => ⟨[], none⟩
  | a :: arrivals => (arrival a.hid a.env args a.tbl a.device).andThen (handleEvents arrivals)

def listenLoop : Bool → List Turn → Process
  | true, _ => ⟨[.libusbExit], .returned 0⟩
  | false, [] => ⟨[], .listening⟩
  | false, turn :: turns =>
    (handleEvents args turn.arrivals).thenGo
      ((listenLoop turn.looped turns).after
        -- no line for the call that a signal has interrupted
        (if ¬ turn.checked ∧ turn.rc ≠ 0 then
          [.error ("libusb_handle_events() failed: " ++ sys.strerror turn.rc)]
        else []))

def startListening (turns : List Turn) : Process :=
  if ¬ sys.hasHotplug then
    ⟨[.error "Hotplug capabilities are not supported on this platform", .libusbExit], .returned 1⟩
  else if sys.registered ≠ 0 then ⟨[.error "Error registering callback 0", .libusbExit], .returned 1⟩
  else listenLoop sys args sys.signalled turns

def main (turns : List Turn) : Process :=
  match sys.home with
  -- a string is made of the null pointer
  | none => ⟨[], .stopped .nullPointer⟩
  | some home =>
    if ¬ sys.pathExists (configPath home) then
      ⟨[.error ("You must create " ++ configPath home)], .returned 1⟩
    else if ¬ sys.pathExists (logFolderPath home) then
      ⟨[.print ("You must run: mkdir -p " ++ logFolderPath home ++ "\n")], .returned 1⟩
    else if sys.libusbInit ≠ 0 then
      ⟨[.libusbInit sys.libusbInit, .error ("failed to initialise libusb: " ++ sys.strerror sys.libusbInit)],
        .returned 1⟩
    else
      ((configureIfConnected sys.runs sys.tbl sys.devices).thenGo
        (startListening sys args turns)).after [.libusbInit 0]

section Conditions

def Process.handled (p : Process) : List Action :=
  p.deeds.filterMap fun
    | .did action => some action
    | _ => none

def Arrival.Survives (a : Arrival) : Prop :=
  args.reported a.device → a.device.readable → Searchable a.tbl a.device ∧
    (listed a.tbl a.device → Detect.Survives a.hid a.tbl a.device)

def Prepared : Prop :=
  (∃ home, sys.home = some home ∧ sys.pathExists (configPath home) ∧
    sys.pathExists (logFolderPath home)) ∧ sys.libusbInit = 0

def Scanned : Prop := ∃ devices, sys.devices = some devices ∧ ScanSurvives sys.runs sys.tbl 0 devices

def Signalled (turns : List Turn) : Prop :=
  sys.signalled ∨ ∃ before turn after, turns = before ++ turn :: after ∧ turn.looped ∧
    (∀ t ∈ before, ¬ t.looped) ∧ ∀ t ∈ before ++ [turn], ∀ a ∈ t.arrivals, a.Survives args

end Conditions

variable {sys args}

@[simp] lemma after_ending (p : Process) (deeds : List Deed) : (p.after deeds).ending = p.ending := rfl

lemma thenGo_returned {e : Effect} {p : Process} {status : ℤ} :
    (e.thenGo p).ending = .returned status ↔ e.stop = none ∧ p.ending = .returned status := by
  rw [Effect.thenGo]
  cases e.stop with
  | none => simp
  | some stop => simp

lemma arrival_returns_iff {a : Arrival} (hkeys : NonEmptyKeys a.tbl) :
    (arrival a.hid a.env args a.tbl a.device).stop = none ↔ a.Survives args := by
  rw [arrival, Arrival.Survives]
  split_ifs with hreported
  · rw [hotplugCallback_iff (fun e => e.stop = none) rfl (by simp),
      (configureKeyboard_outcome a.hid a.tbl a.device a.env).returns_iff hkeys]
    exact ⟨fun h _ => h, fun h => h hreported⟩
  · exact iff_of_true rfl fun h => absurd h hreported

lemma handleEvents_returns_iff {arrivals : List Arrival} (hkeys : ∀ a ∈ arrivals, NonEmptyKeys a.tbl) :
    (handleEvents args arrivals).stop = none ↔ ∀ a ∈ arrivals, a.Survives args := by
  induction arrivals with
  | nil => simp [handleEvents]
  | cons a arrivals ih =>
    rw [handleEvents, andThen_stop, arrival_returns_iff (hkeys a List.mem_cons_self),
      ih fun b hb => hkeys b (List.mem_cons_of_mem _ hb), List.forall_mem_cons]

lemma returned_eq {a b : ℤ} : Ending.returned a = .returned b ↔ b = a :=
  ⟨fun h => (Ending.returned.inj h).symm, fun h => congrArg Ending.returned h.symm⟩

lemma listenLoop_returned {turns : List Turn} (hkeys : ∀ t ∈ turns, ∀ a ∈ t.arrivals, NonEmptyKeys a.tbl)
    (flag : Bool) (status : ℤ) : (listenLoop sys args flag turns).ending = .returned status ↔
      status = 0 ∧ (flag ∨ ∃ before turn after, turns = before ++ turn :: after ∧ turn.looped ∧
        (∀ t ∈ before, ¬ t.looped) ∧ ∀ t ∈ before ++ [turn], ∀ a ∈ t.arrivals, a.Survives args) := by
  induction turns generalizing flag with
  | nil =>
    cases flag with
    | true =>
      rw [listenLoop, returned_eq]
      simp
    | false => simp [listenLoop]
  | cons turn turns ih =>
    cases flag with
    | true =>
      rw [listenLoop, returned_eq]
      simp
    | false =>
      rw [listenLoop, thenGo_returned, after_ending, ih (fun t ht => hkeys t (List.mem_cons_of_mem _ ht)),
        handleEvents_returns_iff (hkeys turn List.mem_cons_self)]
      constructor
      · rintro ⟨hfirst, hstatus, hrest⟩
        refine ⟨hstatus, Or.inr ?_⟩
        by_cases hlooped : turn.looped
        · exact ⟨[], turn, turns, rfl, hlooped, by simp, by simpa using hfirst⟩
        · obtain ⟨before, last, after, rfl, hlast, hquiet, hsurvive⟩ := hrest.resolve_left hlooped
          refine ⟨turn :: before, last, after, rfl, hlast, ?_, ?_⟩
          · exact List.forall_mem_cons.mpr ⟨hlooped, hquiet⟩
          · exact List.forall_mem_cons.mpr ⟨hfirst, hsurvive⟩
      · rintro ⟨hstatus, hsignal⟩
        obtain ⟨before, last, after, heq, hlast, hquiet, hsurvive⟩ := hsignal.resolve_left Bool.false_ne_true
        cases before with
        | nil =>
          obtain ⟨rfl, rfl⟩ := List.cons.inj heq
          exact ⟨hsurvive turn (List.mem_singleton_self _), hstatus, Or.inl hlast⟩
        | cons first before =>
          obtain ⟨rfl, rfl⟩ := List.cons.inj heq
          obtain ⟨hfirst, hothers⟩ := List.forall_mem_cons.mp hsurvive
          exact ⟨hfirst, hstatus, Or.inr
            ⟨before, last, after, rfl, hlast, (List.forall_mem_cons.mp hquiet).2, hothers⟩⟩

lemma configureIfConnected_returns_iff (hkeys : NonEmptyKeys sys.tbl) :
    (configureIfConnected sys.runs sys.tbl sys.devices).stop = none ↔ Scanned sys := by
  rw [Scanned]
  cases sys.devices with
  | none => simp [configureIfConnected]
  | some devices => simp [configureIfConnected, scanLoop_returns_iff hkeys]

lemma startListening_returned {turns : List Turn}
    (hkeys : ∀ t ∈ turns, ∀ a ∈ t.arrivals, NonEmptyKeys a.tbl) (status : ℤ) :
    (startListening sys args turns).ending = .returned status ↔
      (status = 0 ∧ sys.hasHotplug ∧ sys.registered = 0 ∧ Signalled sys args turns) ∨
        (status = 1 ∧ ¬ (sys.hasHotplug ∧ sys.registered = 0)) := by
  rw [startListening]
  by_cases hhotplug : sys.hasHotplug
  · by_cases hregistered : sys.registered = 0
    · rw [if_neg (not_not.mpr hhotplug), if_neg (not_not.mpr hregistered), listenLoop_returned hkeys,
        Signalled]
      simp [hhotplug, hregistered]
    · rw [if_neg (not_not.mpr hhotplug), if_pos hregistered, returned_eq]
      simp [hregistered]
  · rw [if_pos hhotplug, returned_eq]
    simp [hhotplug]

lemma main_prepared (h : Prepared sys) (turns : List Turn) : main sys args turns =
    ((configureIfConnected sys.runs sys.tbl sys.devices).thenGo
      (startListening sys args turns)).after [.libusbInit 0] := by
  obtain ⟨⟨home, hhome, hconfig, hlog⟩, hinit⟩ := h
  simp only [main, hhome, hconfig, hlog, hinit, ne_eq, not_true_eq_false, if_false]

lemma main_unprepared (args : Arguments) (h : ¬ Prepared sys) (turns : List Turn) :
    (main sys args turns).handled = [] ∧ (main sys args turns).deeds.count (.libusbInit 0) = 0 ∧
      (main sys args turns).deeds.count .libusbExit = 0 ∧
      (main sys args turns).ending = if sys.home = none then .stopped .nullPointer else .returned 1 := by
  cases hhome : sys.home with
  | none => simp [main, hhome, Process.handled]
  | some home =>
    by_cases hconfig : sys.pathExists (configPath home)
    · by_cases hlog : sys.pathExists (logFolderPath home)
      · by_cases hinit : sys.libusbInit = 0
        · exact absurd ⟨⟨home, hhome, hconfig, hlog⟩, hinit⟩ h
        · simp [main, hhome, hconfig, hlog, hinit, Process.handled]
      · simp [main, hhome, hconfig, hlog, Process.handled]
    · simp [main, hhome, hconfig, Process.handled]

theorem main_returns_iff (sys : System) (args : Arguments) (turns : List Turn) (status : ℤ)
    (hscan : NonEmptyKeys sys.tbl) (hkeys : ∀ t ∈ turns, ∀ a ∈ t.arrivals, NonEmptyKeys a.tbl) :
    (main sys args turns).ending = .returned status ↔
      (status = 0 ∧ Prepared sys ∧ Scanned sys ∧ sys.hasHotplug ∧ sys.registered = 0 ∧
        Signalled sys args turns) ∨
      (status = 1 ∧ sys.home ≠ none ∧ (¬ Prepared sys ∨
        Scanned sys ∧ ¬ (sys.hasHotplug ∧ sys.registered = 0))) := by
  by_cases hprepared : Prepared sys
  · have hhome : sys.home ≠ none := by
      obtain ⟨⟨home, hhome, -⟩, -⟩ := hprepared
      simp [hhome]
    rw [main_prepared hprepared, after_ending, thenGo_returned, configureIfConnected_returns_iff hscan,
      startListening_returned hkeys]
    tauto
  · obtain ⟨-, -, -, hending⟩ := main_unprepared args hprepared turns
    rw [hending]
    by_cases hhome : sys.home = none
    · simp [hprepared, hhome]
    · rw [if_neg hhome, returned_eq]
      simp [hprepared, hhome]

def desk : System where
  home := some "/home/kb"
  pathExists _ := true
  strerror _ := "Input/Output Error"
  libusbInit := 0
  runs := quietRuns [slice65 1 0]
  tbl := slice65Table
  devices := some [slice65 1 0]
  hasHotplug := true
  registered := 0
  signalled := false

-- an arrival and a failing call, then the signal
def deskArrival : Arrival := ⟨busHid [slice65 1 0], Env.prompt fun _ => 33, slice65Table, slice65 1 0⟩

def deskTurns : List Turn := [⟨[deskArrival], -1, false, false, nofun⟩, ⟨[], 0, true, true, id⟩]

lemma deskTurns_arrivals : ∀ t ∈ deskTurns, ∀ a ∈ t.arrivals, a = deskArrival := by
  simp [deskTurns]

lemma survives_slice65 (order : List UsbDevice) (device : UsbDevice) :
    Searchable slice65Table device ∧ Survives (busHid order) slice65Table device := by
  refine ⟨searchable_iff.mpr (slice65Table_valid.isCustomKeyboard _ _), fun _ dev _ => ?_⟩
  obtain ⟨entries, hentries, -⟩ := slice65Table_valid.keys
  exact ⟨Option.some_ne_none _, Option.some_ne_none _, entries, hentries⟩

lemma slice65_nonEmptyKeys : NonEmptyKeys slice65Table := by
  rintro pairs ⟨⟩
  decide

theorem main_returns_desk : (main desk noArguments deskTurns).ending = .returned 0 := by
  apply (main_returns_iff desk noArguments deskTurns 0 slice65_nonEmptyKeys ?_).mpr
  · refine Or.inl ⟨rfl, ⟨⟨_, rfl, rfl, rfl⟩, rfl⟩, ⟨_, rfl, fun d _ => (survives_slice65 [] d).1,
      fun j d _ => (survives_slice65 [slice65 1 0] d).2⟩, rfl, rfl, Or.inr ⟨deskTurns.take 1, _, [], rfl,
        rfl, ?_, ?_⟩⟩
    · intro t ht
      rw [List.mem_singleton.mp ht]
      exact Bool.false_ne_true
    · intro t ht a ha
      rw [deskTurns_arrivals t ht a ha]
      exact fun _ _ => ⟨(survives_slice65 [] _).1, fun _ => (survives_slice65 [slice65 1 0] _).2⟩
  · intro t ht a ha
    rw [deskTurns_arrivals t ht a ha]
    exact slice65_nonEmptyKeys

section Resources

structure Closed (inits exits : ℕ) (p : Process) : Prop where
  hid : Runs.run hidStep .idle p.handled = some .idle
  inits : p.deeds.count (.libusbInit 0) = inits
  exits : p.deeds.count .libusbExit = exits

def Ending.due : Ending → Option ℕ
  | .returned _ => some 1
  | .listening => some 0
  | .stopped _ => none

lemma configureIfConnected_balanced (h : (configureIfConnected sys.runs sys.tbl sys.devices).stop = none) :
    Runs.run hidStep .idle (configureIfConnected sys.runs sys.tbl sys.devices).actions = some .idle := by
  cases hdevices : sys.devices with
  | none =>
    rw [hdevices] at h
    cases h
  | some devices =>
    rw [hdevices] at h
    exact (scanLoop_handled 0 h).balanced

lemma handleEvents_handled {arrivals : List Arrival} (h : (handleEvents args arrivals).stop = none) :
    Handled 0 (handleEvents args arrivals) := by
  induction arrivals with
  | nil => exact ⟨rfl, rfl, rfl⟩
  | cons a arrivals ih =>
    rw [handleEvents] at h ⊢
    obtain ⟨hfirst, hrest⟩ := andThen_stop.mp h
    refine Handled.andThen ?_ (ih hrest)
    rw [arrival] at hfirst ⊢
    split_ifs at hfirst ⊢
    · cases verdict a.tbl a.device with
      | unreadable hr =>
        rw [hotplugCallback_unreadable hr]
        exact ⟨rfl, rfl, rfl⟩
      | faulty stop hr hc =>
        rw [hotplugCallback_faulty hr hc] at hfirst
        cases hfirst
      | unlisted hr hc =>
        rw [hotplugCallback_unlisted hr hc]
        exact ⟨rfl, rfl, rfl⟩
      | listed hr hc =>
        rw [hotplugCallback_listed hr hc] at hfirst ⊢
        exact (configureKeyboard_outcome _ _ _ _).handled hfirst
    · exact ⟨rfl, rfl, rfl⟩

lemma handled_did (actions : List Action) (p : Process) :
    (p.after (actions.map .did)).handled = actions ++ p.handled := by
  rw [Process.handled, Process.after, List.filterMap_append, List.filterMap_map]
  congr 1
  exact List.filterMap_some

lemma count_did (actions : List Action) (p : Process) {deed : Deed} (h : ∀ action, deed ≠ .did action) :
    (p.after (actions.map .did)).deeds.count deed = p.deeds.count deed := by
  rw [Process.after, List.count_append, List.count_eq_zero_of_not_mem, Nat.zero_add]
  intro hm
  obtain ⟨action, -, ha⟩ := List.mem_map.mp hm
  exact h action ha.symm

lemma Closed.thenGo {inits exits : ℕ} {p : Process} (h : Closed inits exits p) {e : Effect}
    (hbalanced : Runs.run hidStep .idle e.actions = some .idle) (hstop : e.stop = none) :
    Closed inits exits (e.thenGo p) := by
  have hgo : e.thenGo p = p.after (e.actions.map .did) := by rw [Effect.thenGo, hstop]
  rw [hgo]
  refine ⟨?_, ?_, ?_⟩
  · rw [handled_did, Runs.run_append, hbalanced]
    exact h.hid
  · rw [count_did _ _ (by simp), h.inits]
  · rw [count_did _ _ (by simp), h.exits]

lemma thenGo_due {e : Effect} {p : Process} {n : ℕ} (h : (e.thenGo p).ending.due = some n) :
    e.stop = none ∧ p.ending.due = some n := by
  rw [Effect.thenGo] at h
  cases hstop : e.stop with
  | none =>
    rw [hstop] at h
    exact ⟨rfl, h⟩
  | some stop =>
    rw [hstop] at h
    cases h

lemma Closed.error {inits exits : ℕ} {p : Process} (h : Closed inits exits p) (c : Prop) [Decidable c]
    (line : String) : Closed inits exits (p.after (if c then [.error line] else [])) := by
  split_ifs
  · refine ⟨h.hid, ?_, ?_⟩
    · rw [Process.after, List.count_append, h.inits]
      simp
    · rw [Process.after, List.count_append, h.exits]
      simp
  · exact h

lemma listenLoop_closed (flag : Bool) {turns : List Turn} {n : ℕ}
    (h : (listenLoop sys args flag turns).ending.due = some n) :
    Closed 0 n (listenLoop sys args flag turns) := by
  induction turns generalizing flag with
  | nil =>
    cases flag with
    | true =>
      obtain rfl := Option.some.inj h
      exact ⟨rfl, rfl, rfl⟩
    | false =>
      obtain rfl := Option.some.inj h
      exact ⟨rfl, rfl, rfl⟩
  | cons turn turns ih =>
    cases flag with
    | true =>
      obtain rfl := Option.some.inj h
      exact ⟨rfl, rfl, rfl⟩
    | false =>
      rw [listenLoop] at h ⊢
      obtain ⟨hstop, hdue⟩ := thenGo_due h
      rw [after_ending] at hdue
      exact ((ih turn.looped hdue).error _ _).thenGo (handleEvents_handled hstop).balanced hstop

lemma startListening_closed {turns : List Turn} {n : ℕ}
    (h : (startListening sys args turns).ending.due = some n) :
    Closed 0 n (startListening sys args turns) := by
  rw [startListening] at h ⊢
  by_cases hhotplug : sys.hasHotplug
  · rw [if_neg (not_not.mpr hhotplug)] at h ⊢
    by_cases hregistered : sys.registered = 0
    · rw [if_neg (not_not.mpr hregistered)] at h ⊢
      exact listenLoop_closed _ h
    · rw [if_pos hregistered] at h ⊢
      obtain rfl := Option.some.inj h
      exact ⟨rfl, rfl, rfl⟩
  · rw [if_pos hhotplug] at h ⊢
    obtain rfl := Option.some.inj h
    exact ⟨rfl, rfl, rfl⟩

theorem main_gives_back (sys : System) (args : Arguments) (turns : List Turn) :
    (∀ status, (main sys args turns).ending = .returned status →
      (main sys args turns).deeds.count .libusbExit = (main sys args turns).deeds.count (.libusbInit 0) ∧
        Runs.run hidStep .idle (main sys args turns).handled = some .idle) ∧
    ((main sys args turns).ending = .listening →
      (main sys args turns).deeds.count (.libusbInit 0) = 1 ∧
        (main sys args turns).deeds.count .libusbExit = 0 ∧
          Runs.run hidStep .idle (main sys args turns).handled = some .idle) := by
  by_cases hprepared : Prepared sys
  · have hclosed {n : ℕ} (h : (main sys args turns).ending.due = some n) :
        Closed 1 n (main sys args turns) := by
      rw [main_prepared hprepared] at h ⊢
      obtain ⟨hstop, hdue⟩ := thenGo_due h
      have hscan := (startListening_closed hdue).thenGo (configureIfConnected_balanced hstop) hstop
      refine ⟨hscan.hid, ?_, hscan.exits⟩
      exact (List.count_cons_self).trans (congrArg Nat.succ hscan.inits)
    constructor
    · intro status h
      have hend : Closed 1 1 (main sys args turns) := hclosed (by rw [h]; rfl)
      exact ⟨hend.exits.trans hend.inits.symm, hend.hid⟩
    · intro h
      have hend : Closed 1 0 (main sys args turns) := hclosed (by rw [h]; rfl)
      exact ⟨hend.inits, hend.exits, hend.hid⟩
  · obtain ⟨hhandled, hinits, hexits, hending⟩ := main_unprepared args hprepared turns
    rw [hhandled, hinits, hexits, hending]
    refine ⟨fun _ _ => ⟨rfl, rfl⟩, fun h => ?_⟩
    split_ifs at h

end Resources

end KbReg.Detect
