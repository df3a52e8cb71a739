import KbReg.Detect.Startup
import KbReg.Lib.Runs

/-! `kb_detect` over time, with keyboards that come and go. -/

namespace KbReg.Detect

open KbReg.Host KbReg.Protocol

structure Plug where
  serial : ℕ
  device : UsbDevice
  deriving DecidableEq, Repr

/-- Where `main` stands. `todo` is the rest of the snapshot, `target` the attachment whose raw interface
`configure_keyboard` has open. -/
inductive Phase
  | starting
  | scanning (todo : List Plug)
  | scanConfiguring (target : Plug) (todo : List Plug)
  | listening
  | callbackConfiguring (target : Plug)
  deriving DecidableEq, Repr

/-- `pending` are the arrivals that the callback has not been called for, and `configured` the serial
numbers of the attachments that have got the whole table. -/
structure World where
  phase : Phase
  attached : List Plug
  pending : List Plug
  configured : List ℕ
  serials : ℕ
  deriving DecidableEq, Repr

/-- What can happen next. `visit` and `handle` take the next device of the scan and the next arrival, and
carry what hidapi answers then. -/
inductive Happening
  | attach (device : UsbDevice)
  | detach (serial : ℕ)
  | snapshot
  | visit (hid : Hid)
  | register
  | handle (hid : Hid)
  | finish

def UsbDevice.sameIds (a b : UsbDevice) : Bool := b.hasIds a.idVendor a.idProduct

section Step

variable (tbl : Table)

-- the reports that are sent, and so the keyboard that gets them, do not depend on the answers to them
def openPlug (hid : Hid) (attached : List Plug) (device : UsbDevice) : Except Stop (Option Plug) :=
  let e := configureKeyboard tbl device hid (Env.prompt fun _ => 33)
  match e.stop with
  | some stop => .error stop
  | none =>
    .ok (e.configured.head?.bind fun path => attached.find? fun p => p.device.rawPath = some path)

def serve (hid : Hid) (attached : List Plug) (device : UsbDevice) : Except Stop (Option Plug) :=
  match isCustomKeyboard tbl device.idVendor.toNat device.idProduct.toNat with
  | .error stop => .error stop
  | .ok false => .ok none
  | .ok true => openPlug tbl hid attached device

def registered : Phase → Bool
  | .listening | .callbackConfiguring _ => true
  | _ => false

def World.plugIn (w : World) (device : UsbDevice) : World :=
  let plug : Plug := ⟨w.serials, device⟩
  { w with
    attached := w.attached ++ [plug]
    -- the flags of the registration are 0, so the callback hears of later arrivals only
    pending :=
      if registered w.phase ∧ noArguments.reported device then w.pending ++ [plug] else w.pending
    serials := w.serials + 1 }

def World.step (w : World) : Happening → Option World
  | .attach device => some (w.plugIn device)
  | .detach serial => some { w with attached := w.attached.filter (·.serial ≠ serial) }
  | .snapshot =>
    match w.phase with
    | .starting => some { w with phase := .scanning w.attached }
    | _ => none
  | .visit hid =>
    match w.phase with
    | .scanning (plug :: todo) =>
      if plug.device.descriptor ≠ 0 then some { w with phase := .scanning [] }
      else match serve tbl hid w.attached plug.device with
        | .error _ => none
        | .ok none => some { w with phase := .scanning todo }
        | .ok (some target) => some { w with phase := .scanConfiguring target todo }
    | _ => none
  | .register =>
    match w.phase with
    | .scanning [] => some { w with phase := .listening }
    | _ => none
  | .handle hid =>
    match w.phase, w.pending with
    | .listening, plug :: pending =>
      if plug.device.descriptor ≠ 0 then some { w with pending := pending }
      else match serve tbl hid w.attached plug.device with
        | .error _ => none
        | .ok none => some { w with pending := pending }
        | .ok (some target) => some { w with phase := .callbackConfiguring target, pending := pending }
    | _, _ => none
  | .finish =>
    match w.phase with
    | .scanConfiguring target todo => some
      { w with phase := .scanning todo, configured := w.configured ++ [target.serial] }
    | .callbackConfiguring target => some
      { w with phase := .listening, configured := w.configured ++ [target.serial] }
    | _ => none

def launch : World := ⟨.starting, [], [], [], 0⟩

def Caught (w : World) : Prop :=
  w.phase = .listening → w.pending = [] →
    ∀ p ∈ w.attached, listed tbl p.device → p.serial ∈ w.configured

instance (w : World) : Decidable (Caught tbl w) := inferInstanceAs (Decidable (_ → _ → ∀ p ∈ _, _ → _))

/-- For hidapi an identifier 0 matches every device. -/
def UsbDevice.matchesIds (v p : UInt16) (device : UsbDevice) : Bool :=
  (v = 0 || device.idVendor = v) && (p = 0 || device.idProduct = p)

structure Works (attached : List UsbDevice) (hid : Hid) : Prop where
  init : hid.init = 0
  enumerate : ∃ order : List UsbDevice, order.Perm attached ∧ ∀ v p,
    hid.enumerate v p = (order.filter (UsbDevice.matchesIds v p)).flatMap UsbDevice.interfaces
  opens : ∀ device ∈ attached, ∀ i ∈ device.interfaces, hid.openPath i.path = true
  names : ∀ dev, hid.manufacturer dev ≠ none ∧ hid.product dev ≠ none

/-- What is taken for granted: a listed keyboard has a raw interface and its own pair of identifiers, no two
attached devices have the raw interface in common, and hidapi works. -/
def Granted (w : World) : Happening → Prop
  | .attach device =>
    (listed tbl device → device.rawPath.isSome ∧ ∀ p ∈ w.attached, ¬ device.sameIds p.device) ∧
      (device.rawPath.isSome → ∀ p ∈ w.attached, p.device.rawPath ≠ device.rawPath)
  | .visit hid | .handle hid => Works (w.attached.map Plug.device) hid
  | _ => True

def World.queue (w : World) : List Plug :=
  match w.phase with
  | .starting => w.attached
  | .scanning todo | .scanConfiguring _ todo => todo.takeWhile (·.device.readable)
  | .listening | .callbackConfiguring _ => w.pending.filter (·.device.readable)

def World.next (w : World) : Option Plug :=
  match w.phase with
  | .scanning todo => todo.head?
  | _ => w.pending.head?

/-- A listed keyboard comes before the snapshot, or when the callback hears of it and can read it, or while
one with its identifiers has still its turn to come. The snapshot has no unreadable device in front of a
listed one, and an identifier 0 does not lead hidapi to another keyboard. -/
def InTime (w : World) : Happening → Prop
  | .attach device => listed tbl device →
    w.phase = .starting ∨ (registered w.phase ∧ noArguments.reported device ∧ device.readable) ∨
      ∃ q ∈ w.queue, device.sameIds q.device
  | .snapshot => ∀ p ∈ w.attached, listed tbl p.device → p ∈ w.attached.takeWhile (·.device.readable)
  | .visit _ | .handle _ => ∀ q ∈ w.next, q.device.readable → listed tbl q.device → ∀ x ∈ w.attached,
    x.device.rawPath.isSome → x.device.matchesIds q.device.idVendor q.device.idProduct →
      q.device.sameIds x.device
  | _ => True

def World.target (w : World) : Option Plug :=
  match w.phase with
  | .scanConfiguring target _ | .callbackConfiguring target => some target
  | _ => none

structure Covered (w : World) : Prop where
  ids : ∀ p ∈ w.attached, listed tbl p.device → ∀ q ∈ w.attached, p.device.sameIds q.device → q = p
  paths : ∀ p ∈ w.attached, ∀ q ∈ w.attached, p.device.rawPath.isSome →
    q.device.rawPath = p.device.rawPath → q = p
  raw : ∀ p ∈ w.attached, listed tbl p.device → p.device.rawPath.isSome
  turn : ∀ p ∈ w.attached, listed tbl p.device →
    p.serial ∈ w.configured ∨ w.target = some p ∨ ∃ q ∈ w.queue, p.device.sameIds q.device

end Step

section Opening

variable {tbl : Table} {w : World} {hid : Hid}

lemma sameIds_iff {a b : UsbDevice} : a.sameIds b ↔ b.idVendor = a.idVendor ∧ b.idProduct = a.idProduct := by
  simp [UsbDevice.sameIds, UsbDevice.hasIds]

lemma sameIds_self (device : UsbDevice) : device.sameIds device := sameIds_iff.mpr ⟨rfl, rfl⟩

lemma sameIds_comm {a b : UsbDevice} (h : a.sameIds b) : b.sameIds a := by
  rw [sameIds_iff] at h ⊢
  exact ⟨h.1.symm, h.2.symm⟩

lemma sameIds_trans {a b c : UsbDevice} (hb : a.sameIds b) (hc : b.sameIds c) : a.sameIds c := by
  rw [sameIds_iff] at hb hc ⊢
  exact ⟨hc.1.trans hb.1, hc.2.trans hb.2⟩

lemma sameIds_listed {a b : UsbDevice} (h : a.sameIds b) : listed tbl b = listed tbl a := by
  obtain ⟨hv, hp⟩ := sameIds_iff.mp h
  simp only [listed, hv, hp]

lemma matchesIds_of_sameIds {a b : UsbDevice} (h : a.sameIds b) : b.matchesIds a.idVendor a.idProduct := by
  obtain ⟨hv, hp⟩ := sameIds_iff.mp h
  simp [UsbDevice.matchesIds, hv, hp]

lemma isCustom_of_listed {d : UsbDevice} (h : listed tbl d) :
    isCustomKeyboard tbl d.idVendor.toNat d.idProduct.toNat = .ok true := by
  simp only [listed] at h
  split at h
  · next b hb => rw [hb, h]
  · cases h

lemma findSome?_one {α β : Type*} {f : α → Option β} {l : List α} {x : α} {b : β} (hx : x ∈ l)
    (hb : f x = some b) (hone : ∀ y ∈ l, (f y).isSome → f y = some b) : l.findSome? f = some b := by
  have hsome : (l.findSome? f).isSome := List.findSome?_isSome_iff.mpr ⟨x, hx, by simp [hb]⟩
  obtain ⟨c, hc⟩ := Option.isSome_iff_exists.mp hsome
  obtain ⟨y, hy, hyc⟩ := List.exists_of_findSome?_eq_some hc
  rw [hc, ← hyc]
  exact hone y hy (by simp [hyc])

lemma find?_plug {attached : List Plug} {p : Plug} {path : Path} (hp : p ∈ attached)
    (hpath : p.device.rawPath = some path) :
    ∃ target ∈ attached, attached.find? (fun q => q.device.rawPath = some path) = some target ∧
      target.device.rawPath = some path := by
  cases hfind : attached.find? (fun q => q.device.rawPath = some path) with
  | none =>
    have hnone := List.find?_eq_none.mp hfind p hp
    simp [hpath] at hnone
  | some target =>
    exact ⟨target, List.mem_of_find?_eq_some hfind, rfl, by simpa using List.find?_some hfind⟩

lemma openPlug_ok {attached : List Plug} {device : UsbDevice} {o : Option Plug} {path : Path}
    (hinit : hid.init = 0) (hraw : openRaw hid device.idVendor.toNat device.idProduct.toNat = some path)
    (ho : openPlug tbl hid attached device = .ok o) :
    o = attached.find? fun p => p.device.rawPath = some path := by
  have houtcome := configureKeyboard_outcome hid tbl device (Env.prompt fun _ => 33)
  rw [openPlug] at ho
  generalize configureKeyboard tbl device hid (Env.prompt fun _ => 33) = e at houtcome ho
  cases houtcome with
  | uninitialized h => exact absurd hinit h
  | unopened _ h =>
    rw [hraw] at h
    cases h
  | nameless => cases ho
  | keyless => cases ho
  | emptyKey => cases ho
  | loaded dev pairs sent hopens =>
    obtain rfl : path = dev := Option.some.inj (hraw.symm.trans hopens.raw)
    exact (Except.ok.inj ho).symm

lemma openRaw_works {order : List UsbDevice} {device : UsbDevice}
    (hopens : ∀ d ∈ order, ∀ i ∈ d.interfaces, hid.openPath i.path = true)
    (henum : ∀ v p, hid.enumerate v p =
      (order.filter (UsbDevice.matchesIds v p)).flatMap UsbDevice.interfaces) :
    openRaw hid device.idVendor.toNat device.idProduct.toNat =
      (order.filter (UsbDevice.matchesIds device.idVendor device.idProduct)).findSome?
        UsbDevice.rawPath :=
  openRaw_listing (henum _ _) fun d hd => hopens d (List.mem_of_mem_filter hd)

lemma serve_attached (h : Covered tbl w) (hworks : Works (w.attached.map Plug.device) hid) {p : Plug}
    (hp : p ∈ w.attached) (hl : listed tbl p.device) {device : UsbDevice}
    (hids : p.device.sameIds device)
    (hown : ∀ x ∈ w.attached, x.device.rawPath.isSome →
      x.device.matchesIds device.idVendor device.idProduct → device.sameIds x.device)
    {o : Option Plug} (ho : serve tbl hid w.attached device = .ok o) : o = some p := by
  obtain ⟨path, hpath⟩ := Option.isSome_iff_exists.mp (h.raw p hp hl)
  obtain ⟨order, hperm, henum⟩ := hworks.enumerate
  have hmem {d : UsbDevice} : d ∈ order ↔ ∃ q ∈ w.attached, q.device = d := by
    rw [hperm.mem_iff, List.mem_map]
  have hraw : openRaw hid device.idVendor.toNat device.idProduct.toNat = some path := by
    rw [openRaw_works (fun d hd => hworks.opens d (hperm.mem_iff.mp hd)) henum]
    apply findSome?_one (x := p.device) _ hpath
    · intro d hd hsome
      obtain ⟨hd, hmatch⟩ := List.mem_filter.mp hd
      obtain ⟨q, hq, rfl⟩ := hmem.mp hd
      rw [h.ids p hp hl q hq (sameIds_trans hids (hown q hq hsome hmatch)), hpath]
    · exact List.mem_filter.mpr ⟨hmem.mpr ⟨p, hp, rfl⟩, matchesIds_of_sameIds (sameIds_comm hids)⟩
  rw [serve, isCustom_of_listed ((sameIds_listed hids).trans hl)] at ho
  obtain ⟨target, htarget, hfind, hsame⟩ := find?_plug hp hpath
  rw [openPlug_ok hworks.init hraw ho, hfind]
  exact congrArg some (h.paths p hp target htarget (h.raw p hp hl) (hsame.trans hpath.symm))

end Opening

section Invariant

variable {tbl : Table} {w : World}

lemma covered_launch : Covered tbl launch := by
  constructor <;> simp [launch, World.queue]

lemma Covered.advance (h : Covered tbl w) {w' : World} (ha : w'.attached = w.attached)
    (ht : ∀ p ∈ w.attached, listed tbl p.device →
      (p.serial ∈ w.configured ∨ w.target = some p ∨ ∃ q ∈ w.queue, p.device.sameIds q.device) →
        p.serial ∈ w'.configured ∨ w'.target = some p ∨ ∃ q ∈ w'.queue, p.device.sameIds q.device) :
    Covered tbl w' where
  ids := ha ▸ h.ids
  paths := ha ▸ h.paths
  raw := ha ▸ h.raw
  turn p hp hl := ht p (ha ▸ hp) hl (h.turn p (ha ▸ hp) hl)

lemma plugIn_attached {device : UsbDevice} {p : Plug} (hp : p ∈ (w.plugIn device).attached) :
    p ∈ w.attached ∨ p = ⟨w.serials, device⟩ := by
  simpa [World.plugIn] using hp

lemma plugIn_pending {device : UsbDevice} {q : Plug} (hq : q ∈ w.pending) :
    q ∈ (w.plugIn device).pending := by
  simp only [World.plugIn]
  split_ifs
  · exact List.mem_append_left _ hq
  · exact hq

lemma queue_registered (h : registered w.phase) : w.queue = w.pending.filter (·.device.readable) := by
  cases hphase : w.phase with
  | listening => simp only [World.queue, hphase]
  | callbackConfiguring target => simp only [World.queue, hphase]
  | _ =>
    rw [hphase] at h
    cases h

lemma queue_starting (h : w.phase = .starting) : w.queue = w.attached := by simp only [World.queue, h]

lemma plugIn_queue {device : UsbDevice} {q : Plug} (hq : q ∈ w.queue) : q ∈ (w.plugIn device).queue := by
  by_cases hreg : registered w.phase
  · rw [queue_registered hreg] at hq
    rw [queue_registered (w := w.plugIn device) hreg]
    obtain ⟨hq, hreadable⟩ := List.mem_filter.mp hq
    exact List.mem_filter.mpr ⟨plugIn_pending hq, hreadable⟩
  · cases hphase : w.phase with
    | starting =>
      rw [queue_starting hphase] at hq
      rw [queue_starting (w := w.plugIn device) hphase]
      exact List.mem_append_left _ hq
    | scanning todo => simpa only [World.queue, World.plugIn, hphase] using hq
    | scanConfiguring target todo => simpa only [World.queue, World.plugIn, hphase] using hq
    | listening => simp [hphase, registered] at hreg
    | callbackConfiguring target => simp [hphase, registered] at hreg

lemma plugIn_turn {device : UsbDevice} (hl : listed tbl device) (hin : InTime tbl w (.attach device)) :
    ∃ q ∈ (w.plugIn device).queue, device.sameIds q.device := by
  rcases hin hl with hphase | ⟨hreg, hreported, hreadable⟩ | ⟨q, hq, hsame⟩
  · refine ⟨⟨w.serials, device⟩, ?_, sameIds_self device⟩
    rw [queue_starting (w := w.plugIn device) hphase]
    exact List.mem_append_right _ (List.mem_singleton_self _)
  · refine ⟨⟨w.serials, device⟩, ?_, sameIds_self device⟩
    rw [queue_registered (w := w.plugIn device) hreg]
    refine List.mem_filter.mpr ⟨?_, hreadable⟩
    simp only [World.plugIn, hreg, hreported, and_self, if_true]
    exact List.mem_append_right _ (List.mem_singleton_self _)
  · exact ⟨q, plugIn_queue hq, hsame⟩

lemma covered_plugIn (h : Covered tbl w) {device : UsbDevice} (hnew : Granted tbl w (.attach device))
    (hin : InTime tbl w (.attach device)) : Covered tbl (w.plugIn device) := by
  obtain ⟨hlisted, hpaths⟩ := hnew
  refine ⟨?_, ?_, ?_, ?_⟩
  · intro p hp hl q hq hsame
    rcases plugIn_attached hp with hp | rfl
    · rcases plugIn_attached hq with hq | rfl
      · exact h.ids p hp hl q hq hsame
      · have hl' : listed tbl device := (sameIds_listed hsame).trans hl
        exact absurd (sameIds_comm hsame) ((hlisted hl').2 p hp)
    · rcases plugIn_attached hq with hq | rfl
      · exact absurd hsame ((hlisted hl).2 q hq)
      · rfl
  · intro p hp q hq hsome hsame
    rcases plugIn_attached hp with hp | rfl
    · rcases plugIn_attached hq with hq | rfl
      · exact h.paths p hp q hq hsome hsame
      · exact absurd hsame.symm (hpaths (hsame ▸ hsome) p hp)
    · rcases plugIn_attached hq with hq | rfl
      · exact absurd hsame (hpaths hsome q hq)
      · rfl
  · intro p hp hl
    rcases plugIn_attached hp with hp | rfl
    · exact h.raw p hp hl
    · exact (hlisted hl).1
  · intro p hp hl
    rcases plugIn_attached hp with hp | rfl
    · apply (h.turn p hp hl).imp_right
      apply Or.imp_right
      rintro ⟨q, hq, hsame⟩
      exact ⟨q, plugIn_queue hq, hsame⟩
    · exact Or.inr (Or.inr (plugIn_turn hl hin))

lemma covered_detach (h : Covered tbl w) (serial : ℕ) :
    Covered tbl { w with attached := w.attached.filter (·.serial ≠ serial) } := by
  have hmem (p : Plug) (hp : p ∈ w.attached.filter (·.serial ≠ serial)) : p ∈ w.attached :=
    List.mem_of_mem_filter hp
  refine ⟨fun p hp hl q hq => h.ids p (hmem p hp) hl q (hmem q hq),
    fun p hp q hq => h.paths p (hmem p hp) q (hmem q hq), fun p hp => h.raw p (hmem p hp), ?_⟩
  intro p hp hl
  cases hphase : w.phase with
  | starting =>
    -- before the snapshot every attached device will have its turn
    refine Or.inr (Or.inr ⟨p, ?_, sameIds_self _⟩)
    simpa only [World.queue, hphase] using hp
  | _ =>
    have hturn := h.turn p (hmem p hp) hl
    simpa only [World.queue, World.target, hphase] using hturn

lemma covered_snapshot {w' : World} (h : Covered tbl w) (hin : InTime tbl w .snapshot)
    (hs : w.step tbl .snapshot = some w') : Covered tbl w' := by
  simp only [World.step] at hs
  split at hs
  · next hphase =>
    obtain rfl := Option.some.inj hs
    refine Covered.advance h ?_ fun p hp hl _ => ?_
    · rfl
    · exact Or.inr (Or.inr ⟨p, hin p hp hl, sameIds_self _⟩)
  · cases hs

/-- What a visit or a callback comes to, as `gone`, `idle` and `busy` say for a device that cannot be read,
for one that no keyboard is opened for, and for one that leads to a keyboard. -/
inductive Served (tbl : Table) (hid : Hid) (attached : List Plug) (device : UsbDevice) (gone idle : World)
    (busy : Plug → World) : World → Prop
  | gone (hr : ¬ device.readable) : Served tbl hid attached device gone idle busy gone
  | idle (hr : device.readable) (ho : serve tbl hid attached device = .ok none) :
    Served tbl hid attached device gone idle busy idle
  | busy (target : Plug) (hr : device.readable) (ho : serve tbl hid attached device = .ok (some target)) :
    Served tbl hid attached device gone idle busy (busy target)

lemma served_of_step {hid : Hid} {attached : List Plug} {device : UsbDevice} {gone idle w' : World}
    {busy : Plug → World}
    (hs : (if device.descriptor ≠ 0 then some gone
      else match serve tbl hid attached device with
        | .error _ => none
        | .ok none => some idle
        | .ok (some target) => some (busy target)) = some w') :
    Served tbl hid attached device gone idle busy w' := by
  split_ifs at hs with hd
  · obtain rfl := Option.some.inj hs
    exact .gone fun hr => hd (of_decide_eq_true hr)
  · have hr : device.readable := decide_eq_true (not_not.mp hd)
    split at hs
    · cases hs
    · next ho =>
      obtain rfl := Option.some.inj hs
      exact .idle hr ho
    · next target ho =>
      obtain rfl := Option.some.inj hs
      exact .busy target hr ho

lemma visit_cases {hid : Hid} {w' : World} (hs : w.step tbl (.visit hid) = some w') :
    ∃ plug todo, w.phase = .scanning (plug :: todo) ∧
      Served tbl hid w.attached plug.device { w with phase := .scanning [] }
        { w with phase := .scanning todo } (fun target => { w with phase := .scanConfiguring target todo })
        w' := by
  simp only [World.step] at hs
  split at hs
  · next plug todo hphase => exact ⟨plug, todo, hphase, served_of_step hs⟩
  · cases hs

lemma handle_cases {hid : Hid} {w' : World} (hs : w.step tbl (.handle hid) = some w') :
    ∃ plug pending, w.phase = .listening ∧ w.pending = plug :: pending ∧
      Served tbl hid w.attached plug.device { w with pending := pending } { w with pending := pending }
        (fun target => { w with phase := .callbackConfiguring target, pending := pending }) w' := by
  simp only [World.step] at hs
  split at hs
  · next plug pending hphase hpending => exact ⟨plug, pending, hphase, hpending, served_of_step hs⟩
  · cases hs

lemma covered_served (h : Covered tbl w) {hid : Hid} (hworks : Works (w.attached.map Plug.device) hid)
    {plug : Plug} {rest : List Plug} (hq : w.queue = plug :: rest) (ht : w.target = none)
    (hown : listed tbl plug.device → ∀ x ∈ w.attached, x.device.rawPath.isSome →
      x.device.matchesIds plug.device.idVendor plug.device.idProduct → plug.device.sameIds x.device)
    {w' : World} (ha : w'.attached = w.attached) (hc : w'.configured = w.configured)
    (hrest : w'.queue = rest) (ho : serve tbl hid w.attached plug.device = .ok w'.target) :
    Covered tbl w' := by
  apply h.advance ha
  intro p hp hl hturn
  rw [hc, hrest]
  rcases hturn with hm | hm | ⟨q, hm, hsame⟩
  · exact Or.inl hm
  · rw [ht] at hm
    cases hm
  · rw [hq] at hm
    rcases List.mem_cons.mp hm with rfl | hm
    · exact Or.inr (Or.inl (serve_attached h hworks hp hl hsame (hown ((sameIds_listed hsame).trans hl)) ho))
    · exact Or.inr (Or.inr ⟨q, hm, hsame⟩)

lemma covered_visit {hid : Hid} {w' : World} (h : Covered tbl w) (hgranted : Granted tbl w (.visit hid))
    (hin : InTime tbl w (.visit hid)) (hs : w.step tbl (.visit hid) = some w') : Covered tbl w' := by
  obtain ⟨plug, todo, hphase, hserved⟩ := visit_cases hs
  have htarget : w.target = none := by simp only [World.target, hphase]
  have hnext : plug ∈ w.next := by simp [World.next, hphase]
  have hqueue (hr : plug.device.readable) : w.queue = plug :: todo.takeWhile (·.device.readable) := by
    simp [World.queue, hphase, hr]
  cases hserved with
  | gone hr =>
    refine Covered.advance h ?_ fun p _ _ hturn => ?_
    · rfl
    · simpa [World.queue, World.target, hphase, hr] using hturn
  | idle hr ho => exact covered_served h hgranted (hqueue hr) htarget (hin plug hnext hr) rfl rfl rfl ho
  | busy target hr ho =>
    exact covered_served h hgranted (hqueue hr) htarget (hin plug hnext hr) rfl rfl rfl ho

lemma covered_register {w' : World} (h : Covered tbl w) (hs : w.step tbl .register = some w') :
    Covered tbl w' := by
  simp only [World.step] at hs
  split at hs
  · next hphase =>
    obtain rfl := Option.some.inj hs
    refine Covered.advance h ?_ fun p _ _ hturn => ?_
    · rfl
    · -- the scan is through, so nothing is left to its queue
      simp only [World.queue, World.target, hphase] at hturn
      exact Or.inl (by simpa using hturn)
  · cases hs

lemma covered_handle {hid : Hid} {w' : World} (h : Covered tbl w) (hgranted : Granted tbl w (.handle hid))
    (hin : InTime tbl w (.handle hid)) (hs : w.step tbl (.handle hid) = some w') : Covered tbl w' := by
  obtain ⟨plug, pending, hphase, hpending, hserved⟩ := handle_cases hs
  have htarget : w.target = none := by simp only [World.target, hphase]
  have hnext : plug ∈ w.next := by simp [World.next, hphase, hpending]
  have hqueue (hr : plug.device.readable) : w.queue = plug :: pending.filter (·.device.readable) := by
    simp [World.queue, hphase, hpending, hr]
  cases hserved with
  | gone hr =>
    refine Covered.advance h ?_ fun p _ _ hturn => ?_
    · rfl
    · simpa [World.queue, World.target, hphase, hpending, hr] using hturn
  | idle hr ho =>
    refine covered_served h hgranted (hqueue hr) htarget (hin plug hnext hr) rfl rfl ?_ ?_
    · simp only [World.queue, hphase]
    · simpa only [World.target, hphase] using ho
  | busy target hr ho =>
    exact covered_served h hgranted (hqueue hr) htarget (hin plug hnext hr) rfl rfl rfl ho

lemma covered_finish {w' : World} (h : Covered tbl w) (hs : w.step tbl .finish = some w') :
    Covered tbl w' := by
  have hfinished {target : Plug} (ht : w.target = some target) (ha : w'.attached = w.attached)
      (hq : w'.queue = w.queue) (hc : w'.configured = w.configured ++ [target.serial]) :
      Covered tbl w' := by
    apply h.advance ha
    intro p _ _ hturn
    rw [hc, hq]
    rcases hturn with hm | hm | hm
    · exact Or.inl (List.mem_append_left _ hm)
    · obtain rfl := Option.some.inj (ht.symm.trans hm)
      exact Or.inl (List.mem_append_right _ (List.mem_singleton_self _))
    · exact Or.inr (Or.inr hm)
  simp only [World.step] at hs
  split at hs
  · next target todo hphase =>
    obtain rfl := Option.some.inj hs
    exact hfinished (by simp only [World.target, hphase]) rfl (by simp only [World.queue, hphase]) rfl
  · next target hphase =>
    obtain rfl := Option.some.inj hs
    exact hfinished (by simp only [World.target, hphase]) rfl (by simp only [World.queue, hphase]) rfl
  · cases hs

theorem covered_step {e : Happening} {w' : World} (h : Covered tbl w)
    (hallowed : Granted tbl w e ∧ InTime tbl w e) (hs : w.step tbl e = some w') : Covered tbl w' := by
  obtain ⟨hgranted, hin⟩ := hallowed
  cases e with
  | attach device =>
    obtain rfl := Option.some.inj hs
    exact covered_plugIn h hgranted hin
  | detach serial =>
    obtain rfl := Option.some.inj hs
    exact covered_detach h serial
  | snapshot => exact covered_snapshot h hin hs
  | visit hid => exact covered_visit h hgranted hin hs
  | register => exact covered_register h hs
  | handle hid => exact covered_handle h hgranted hin hs
  | finish => exact covered_finish h hs

end Invariant

section Quiet

variable {tbl : Table} {w : World} {hid : Hid}

lemma configureKeyboard_works {attached : List UsbDevice} (hvalid : Valid tbl) (hworks : Works attached hid)
    (device : UsbDevice) (env : Env) : (configureKeyboard tbl device hid env).stop = none ∧
      (configureKeyboard tbl device hid env).configured =
        (openRaw hid device.idVendor.toNat device.idProduct.toNat).toList := by
  cases hraw : openRaw hid device.idVendor.toNat device.idProduct.toNat with
  | none =>
    simp only [configureKeyboard, hworks.init, hraw]
    exact ⟨rfl, rfl⟩
  | some dev =>
    obtain ⟨pairs, hpairs, hkeys⟩ := hvalid.keyTexts
    obtain ⟨sent, hconf, _⟩ :=
      configureKeyboard_opened ⟨hworks.init, hraw, hworks.names dev⟩ hpairs hkeys env
    rw [hconf]
    exact ⟨rfl, rfl⟩

lemma openRaw_plug {attached : List Plug} (hworks : Works (attached.map Plug.device) hid)
    {device : UsbDevice} {path : Path}
    (hraw : openRaw hid device.idVendor.toNat device.idProduct.toNat = some path) :
    ∃ target, attached.find? (fun p => p.device.rawPath = some path) = some target ∧
      target.device.rawPath = some path := by
  obtain ⟨order, hperm, henum⟩ := hworks.enumerate
  rw [openRaw_works (fun d hd => hworks.opens d (hperm.mem_iff.mp hd)) henum] at hraw
  obtain ⟨d, hd, hpath⟩ := List.exists_of_findSome?_eq_some hraw
  obtain ⟨p, hp, rfl⟩ := List.mem_map.mp (hperm.mem_iff.mp (List.mem_of_mem_filter hd))
  obtain ⟨target, -, hfind⟩ := find?_plug hp hpath
  exact ⟨target, hfind⟩

lemma serve_works {attached : List Plug} (hvalid : Valid tbl) (hworks : Works (attached.map Plug.device) hid)
    {device : UsbDevice}
    (hc : isCustomKeyboard tbl device.idVendor.toNat device.idProduct.toNat = .ok true) (env : Env) :
    ∃ o : Option Plug, serve tbl hid attached device = .ok o ∧
      (configureKeyboard tbl device hid env).stop = none ∧
      (configureKeyboard tbl device hid env).configured.map some = o.toList.map (·.device.rawPath) := by
  obtain ⟨hstop, hconf⟩ := configureKeyboard_works hvalid hworks device (Env.prompt fun _ => 33)
  obtain ⟨hstop', hconf'⟩ := configureKeyboard_works hvalid hworks device env
  have hserve : serve tbl hid attached device =
      .ok ((openRaw hid device.idVendor.toNat device.idProduct.toNat).toList.head?.bind fun path =>
        attached.find? fun p => p.device.rawPath = some path) := by
    simp only [serve, hc, openPlug, hstop, hconf]
  refine ⟨_, hserve, hstop', ?_⟩
  rw [hconf']
  cases hraw : openRaw hid device.idVendor.toNat device.idProduct.toNat with
  | none => rfl
  | some path =>
    obtain ⟨target, hfind, hpath⟩ := openRaw_plug hworks hraw
    simp [hfind, hpath]

def ScansAs (tbl : Table) (w : World) (e : Effect) : Prop :=
  ∃ (events : List Happening) (plugs : List Plug),
    Runs.run (World.step tbl) w events = some
      { w with phase := .scanning [], configured := w.configured ++ plugs.map Plug.serial } ∧
    e.configured.map some = plugs.map (·.device.rawPath)

lemma scansAs_skip (hid : Hid) {todo : List Plug} {e e' : Effect}
    (hstep : w.step tbl (.visit hid) = some { w with phase := .scanning todo })
    (h : ScansAs tbl { w with phase := .scanning todo } e) (he : e'.configured = e.configured) :
    ScansAs tbl w e' := by
  obtain ⟨events, plugs, hrun, hconf⟩ := h
  refine ⟨.visit hid :: events, plugs, Option.bind_eq_some_iff.mpr ⟨_, hstep, hrun⟩, ?_⟩
  rw [he, hconf]

lemma scansAs_configure (hid : Hid) {target : Plug} {todo : List Plug} {c : List Path} {e e' : Effect}
    (hstep : w.step tbl (.visit hid) = some { w with phase := .scanConfiguring target todo })
    (h : ScansAs tbl
      { w with phase := .scanning todo, configured := w.configured ++ [target.serial] } e)
    (hc : c.map some = [target.device.rawPath]) (he : e'.configured = c ++ e.configured) :
    ScansAs tbl w e' := by
  obtain ⟨events, plugs, hrun, hconf⟩ := h
  refine ⟨.visit hid :: .finish :: events, target :: plugs, ?_, ?_⟩
  · refine Option.bind_eq_some_iff.mpr ⟨_, hstep, Option.bind_eq_some_iff.mpr ⟨_, rfl, hrun.trans ?_⟩⟩
    simp
  · rw [he, List.map_append, hc, hconf]
    rfl

theorem quiet_scan (hvalid : Valid tbl) {runs : ℕ → Hid × Env} {todo : List Plug}
    (hphase : w.phase = .scanning todo)
    (hruns : ∀ n, Works (w.attached.map Plug.device) (runs n).1) (n : ℕ) :
    ScansAs tbl w (scanLoop runs tbl n (todo.map Plug.device)) := by
  induction todo generalizing w n with
  | nil =>
    refine ⟨[], [], ?_, rfl⟩
    simp only [Runs.run, List.map_nil, List.append_nil, ← hphase]
  | cons plug todo ih =>
    have hrest (c : List ℕ) (m : ℕ) : ScansAs tbl { w with phase := .scanning todo, configured := c }
        (scanLoop runs tbl m (todo.map Plug.device)) :=
      ih (w := { w with phase := .scanning todo, configured := c }) rfl hruns m
    rw [List.map_cons]
    cases verdict tbl plug.device with
    | unreadable hr =>
      refine ⟨[.visit (runs n).1], [], ?_, ?_⟩
      · have hd : ¬ plug.device.descriptor = 0 := fun hd => hr (decide_eq_true hd)
        simp [Runs.run, World.step, hphase, hd]
      · rw [scanLoop_unreadable n hr]
        rfl
    | faulty stop hr hc => exact absurd hc (not_faulty hvalid plug.device stop)
    | unlisted hr hc =>
      apply scansAs_skip (runs n).1 _ (hrest w.configured n)
      · rw [scanLoop_unlisted n hr hc]
      · simp [World.step, hphase, of_decide_eq_true hr, serve, hc]
    | listed hr hc =>
      have hd : plug.device.descriptor = 0 := of_decide_eq_true hr
      obtain ⟨o, ho, hstop, hpaths⟩ := serve_works hvalid (hruns n) hc (runs n).2
      have hscan : (scanLoop runs tbl n (plug.device :: todo.map Plug.device)).configured =
          (configureKeyboard tbl plug.device (runs n).1 (runs n).2).configured ++
            (scanLoop runs tbl (n + 1) (todo.map Plug.device)).configured := by
        rw [scanLoop_listed n hr hc, Effect.andThen, hstop]
        exact List.filterMap_append
      cases o with
      | none =>
        apply scansAs_skip (runs n).1 _ (hrest w.configured (n + 1))
        · rw [hscan, List.map_eq_nil_iff.mp hpaths, List.nil_append]
        · simp [World.step, hphase, hd, ho]
      | some target =>
        apply scansAs_configure (runs n).1 _ (hrest _ (n + 1)) hpaths hscan
        simp [World.step, hphase, hd, ho]

theorem quiet_callback (hvalid : Valid tbl) {plug : Plug} {pending : List Plug}
    (hphase : w.phase = .listening) (hpending : w.pending = plug :: pending)
    (hworks : Works (w.attached.map Plug.device) hid) (env : Env) :
    ∃ (events : List Happening) (plugs : List Plug),
      Runs.run (World.step tbl) w events = some
        { w with pending := pending, configured := w.configured ++ plugs.map Plug.serial } ∧
      (hotplugCallback hid env tbl plug.device).configured.map some = plugs.map (·.device.rawPath) := by
  cases verdict tbl plug.device with
  | unreadable hr =>
    refine ⟨[.handle hid], [], ?_, ?_⟩
    · have hd : ¬ plug.device.descriptor = 0 := fun hd => hr (decide_eq_true hd)
      simp [Runs.run, World.step, hphase, hpending, hd]
    · rw [hotplugCallback_unreadable hr]
      rfl
  | faulty stop hr hc => exact absurd hc (not_faulty hvalid plug.device stop)
  | unlisted hr hc =>
    refine ⟨[.handle hid], [], ?_, ?_⟩
    · simp [Runs.run, World.step, hphase, hpending, of_decide_eq_true hr, serve, hc]
    · rw [hotplugCallback_unlisted hr hc]
      rfl
  | listed hr hc =>
    have hd : plug.device.descriptor = 0 := of_decide_eq_true hr
    obtain ⟨o, ho, _, hpaths⟩ := serve_works hvalid hworks hc env
    rw [hotplugCallback_listed hr hc, hpaths]
    cases o with
    | none =>
      refine ⟨[.handle hid], [], ?_, rfl⟩
      simp [Runs.run, World.step, hphase, hpending, hd, ho]
    | some target =>
      refine ⟨[.handle hid, .finish], [target], ?_, rfl⟩
      simp [Runs.run, World.step, hphase, hpending, hd, ho]

end Quiet

section Missed

theorem no_attachment_missed (tbl : Table) (events : List Happening)
    (hgranted : Runs.Always (World.step tbl) (Granted tbl) launch events)
    (hin : Runs.Always (World.step tbl) (InTime tbl) launch events) (before : List Happening)
    (hbefore : before <+: events) (w : World)
    (hrun : Runs.run (World.step tbl) launch before = some w) : Caught tbl w := by
  have h : Covered tbl w := Runs.invariant_of_always covered_step
    (Runs.always_of_prefix hbefore (Runs.always_and hgranted hin)) hrun covered_launch
  intro hphase hpending p hp hl
  have hturn := h.turn p hp hl
  simp only [World.queue, World.target, hphase, hpending] at hturn
  simpa using hturn

def Missed (tbl : Table) (events : List Happening) : Prop :=
  Runs.Always (World.step tbl) (Granted tbl) launch events ∧
    ∃ w, Runs.run (World.step tbl) launch events = some w ∧ ¬ Caught tbl w

lemma granted_first {device : UsbDevice} (hraw : device.rawPath.isSome) {w : World}
    (hw : w.attached = []) : Granted slice65Table w (.attach device) := by
  simp [Granted, hw, hraw]

def slice65OfClass (bDeviceClass : UInt8) : UsbDevice := { slice65 1 0 with bDeviceClass := bDeviceClass }

theorem late_attachment_missed :
    -- between the snapshot and the registration, and later with a class of its own
    Missed slice65Table [.snapshot, .attach (slice65 1 0), .register] ∧
      Missed slice65Table [.snapshot, .register, .attach (slice65OfClass 0xEF)] := by
  constructor
  · refine ⟨?_, _, rfl, by decide⟩
    apply Runs.always_cons trivial rfl
    apply Runs.always_cons (granted_first rfl rfl) rfl
    exact Runs.always_cons trivial rfl trivial
  · refine ⟨?_, _, rfl, by decide⟩
    apply Runs.always_cons trivial rfl
    apply Runs.always_cons trivial rfl
    exact Runs.always_cons (granted_first rfl rfl) rfl trivial

def hostHid (attached : List UsbDevice) : Hid :=
  { busHid attached with
    enumerate := fun v p => (attached.filter (UsbDevice.matchesIds v p)).flatMap UsbDevice.interfaces }

lemma works_hostHid (attached : List UsbDevice) : Works attached (hostHid attached) where
  init := rfl
  enumerate := ⟨attached, List.Perm.refl _, fun _ _ => rfl⟩
  opens _ _ _ _ := rfl
  names _ := ⟨Option.some_ne_none _, Option.some_ne_none _⟩

-- the keyboard is attached anew while the scan has its first attachment in front of it
def replugged : List Happening :=
  [.attach (slice65 1 0), .snapshot, .detach 0, .attach (slice65 2 0), .visit (hostHid [slice65 2 0]), .finish,
    .register]

theorem no_attachment_missed_slice65 :
    ∃ w, Runs.run (World.step slice65Table) launch replugged = some w ∧ w.phase = .listening ∧
      w.attached = [⟨1, slice65 2 0⟩] ∧ Caught slice65Table w := by
  refine ⟨_, rfl, rfl, rfl, ?_⟩
  refine no_attachment_missed slice65Table replugged ?_ ?_ replugged (List.prefix_refl _) _ rfl
  · apply Runs.always_cons (granted_first rfl rfl) rfl
    apply Runs.always_cons trivial rfl
    apply Runs.always_cons trivial rfl
    apply Runs.always_cons (granted_first rfl rfl) rfl
    refine Runs.always_cons ?_ rfl ?_
    · exact works_hostHid _
    · apply Runs.always_cons trivial rfl
      exact Runs.always_cons trivial rfl trivial
  · apply Runs.always_cons (fun _ => Or.inl rfl) rfl
    apply Runs.always_cons (fun _ hp _ => hp) rfl
    apply Runs.always_cons trivial rfl
    apply Runs.always_cons (fun _ => Or.inr (Or.inr ⟨⟨0, slice65 1 0⟩, by decide, by decide⟩)) rfl
    refine Runs.always_cons ?_ rfl ?_
    · rintro q ⟨⟩ _ _ x hx _ _
      obtain rfl := List.mem_singleton.mp hx
      decide
    · apply Runs.always_cons trivial rfl
      exact Runs.always_cons trivial rfl trivial

end Missed

end KbReg.Detect
