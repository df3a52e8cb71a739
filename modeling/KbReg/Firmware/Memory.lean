import KbReg.Firmware.Bounds
import KbReg.Lib.Linked
import KbReg.Lib.Transcripts
import Mathlib.Data.List.AList

/-! The firmware on its heap: nodes and texts behind pointers, malloc and free. -/

namespace KbReg.Firmware

open KbReg

variable {A : Type} [DecidableEq A]

structure Node (A : Type) where
  keycode : UInt16
  data : Option A
  next : Option A
  deriving DecidableEq

inductive Block (A : Type)
  | node (content : Node A)
  | text (bytes : List UInt8)
  deriving DecidableEq

abbrev Heap (A : Type) := AList fun _ : A => Block A

/-- Where malloc finds memory, and what that memory held before. -/
structure Allocator (A : Type) [DecidableEq A] where
  place : Heap A → ℕ → A
  fresh : ∀ heap size, place heap size ∉ heap
  oldNode : ℕ → Node A
  oldText : ℕ → ℕ → UInt8

/-- The globals of the firmware, with `register_head` as the pointer it is. The list of registers in
`globals` is not used. -/
structure Chip (A : Type) [DecidableEq A] where
  globals : Keyboard
  registerHead : Option A
  heap : Heap A

def asNode : Option (Block A) → Option (Node A)
  | some (.node content) => some content
  | _ => none

def asText : Option (Block A) → Option (List UInt8)
  | some (.text bytes) => some bytes
  | _ => none

def asCell (b : Option (Block A)) : Option ((UInt16 × Option A) × Option A) :=
  (asNode b).map fun r => ((r.keycode, r.data), r.next)

section Heap

variable (heap : Heap A) (a : A)

def nodeAt : Option (Node A) := asNode (heap.lookup a)
def textAt : Option (List UInt8) := asText (heap.lookup a)
def cellAt : Option ((UInt16 × Option A) × Option A) := asCell (heap.lookup a)

lemma view_insert {C : Type} (view : Option (Block A) → C) (b : Block A) :
    (fun c => view ((heap.insert a b).lookup c)) =
      Function.update (fun c => view (heap.lookup c)) a (view (some b)) := by
  funext c
  by_cases h : c = a
  · subst h
    rw [AList.lookup_insert, Function.update_self]
  · rw [AList.lookup_insert_ne h, Function.update_of_ne h]

lemma view_erase {C : Type} (view : Option (Block A) → C) :
    (fun c => view ((heap.erase a).lookup c)) =
      Function.update (fun c => view (heap.lookup c)) a (view none) := by
  funext c
  by_cases h : c = a
  · subst h
    rw [AList.lookup_erase, Function.update_self]
  · rw [AList.lookup_erase_ne h, Function.update_of_ne h]

lemma cellAt_insert (b : Block A) :
    cellAt (heap.insert a b) = Function.update (cellAt heap) a (asCell (some b)) :=
  view_insert heap a asCell b

lemma textAt_insert (b : Block A) :
    textAt (heap.insert a b) = Function.update (textAt heap) a (asText (some b)) :=
  view_insert heap a asText b

lemma nodeAt_insert (r : Node A) : nodeAt (heap.insert a (.node r)) a = some r := by
  rw [nodeAt, AList.lookup_insert]
  rfl

lemma cellAt_erase : cellAt (heap.erase a) = Function.update (cellAt heap) a none :=
  view_erase heap a asCell

lemma textAt_erase : textAt (heap.erase a) = Function.update (textAt heap) a none :=
  view_erase heap a asText

variable {heap a}

lemma mem_of_nodeAt {r : Node A} (h : nodeAt heap a = some r) : a ∈ heap := by
  rw [← AList.lookup_isSome]
  cases hl : heap.lookup a with
  | none =>
    rw [nodeAt, hl] at h
    cases h
  | some b => rfl

lemma keys_overwrite (h : a ∈ heap) (b : Block A) : (heap.insert a b).keys.Perm heap.keys := by
  rw [AList.keys_insert]
  exact (List.perm_cons_erase (AList.mem_keys.mp h)).symm

lemma keys_fresh (h : a ∉ heap) (b : Block A) : (heap.insert a b).keys = a :: heap.keys := by
  rw [AList.keys_insert, List.erase_of_not_mem]
  rwa [← AList.mem_keys]

end Heap

namespace Chip

variable (fw : Build) (mem : Allocator A) (chip : Chip A)

def powerUp (memory : ℕ → UInt8) : Chip A := ⟨Firmware.powerUp fw memory, none, ∅⟩

def malloc (size : ℕ) (block : Block A) : Option A × Chip A :=
  let (allocated, globals) := chip.globals.malloc fw
  if allocated then
    let a := mem.place chip.heap size
    (some a, { chip with globals := globals, heap := chip.heap.insert a block })
  else (none, { chip with globals := globals })

def free : Option A → Option (Chip A)
  | none => some chip
  | some a => if a ∈ chip.heap then some { chip with heap := chip.heap.erase a } else none

def assign (a : A) (f : Node A → Node A) : Option (Chip A) :=
  (nodeAt chip.heap a).map fun r => { chip with heap := chip.heap.insert a (.node (f r)) }

def memcpy (a : A) (size : ℕ) : Option (Chip A) := do
  let bytes ← textAt chip.heap a
  if size ≤ fw.bufferMax ∧ size ≤ bytes.length then
    let source := (List.range size).map chip.globals.kbRegisterBuffer
    some { chip with
      globals := chip.globals.logCopy
      heap := chip.heap.insert a (.text (source ++ bytes.drop size)) }
  else none

/-- No list without a cycle is longer than the number of blocks. -/
def limit : ℕ := chip.heap.keys.length

def getRegister (keycode : UInt16) : Option (Option A) :=
  Linked.search (cellAt chip.heap) (fun v => v.1 = keycode) chip.limit chip.registerHead

def appendNode (node : A) : Option (Chip A) :=
  match chip.registerHead with
  | none => some { chip with registerHead := some node }
  | some head => do
    let first ← nodeAt chip.heap head
    let prev ← Linked.lastCell (cellAt chip.heap) chip.limit head first.next
    chip.assign prev fun r => { r with next := some node }

def initNewRegister (size : ℕ) : Option (Option A × Chip A) :=
  match chip.malloc fw mem size (.node (mem.oldNode chip.globals.mallocs)) with
  | (none, chip) => some (none, chip)
  | (some node, chip) => do
    let chip ← chip.assign node fun r => { r with next := none }
    let chip ← chip.appendNode node
    some (some node, chip)

def fill (node data : A) : Option (Chip A) := do
  let chip ← chip.assign node fun r => { r with keycode := chip.globals.current fw }
  let chip ← chip.assign node fun r => { r with data := some data }
  chip.memcpy fw data (chip.globals.kbRegisterBufferOffset + 1)

/-- F once it has memory for the text. `size` is what the compiler makes of `sizeof(Register)`. -/
def store (size : ℕ) (data : A) : Option (Chip A × Response) := do
  match ← chip.getRegister (chip.globals.current fw) with
  | none =>
    match ← chip.initNewRegister fw mem size with
    | (none, chip) => some (chip, .outOfMemory)
    | (some node, chip) =>
      let chip ← chip.fill fw node data
      some (chip, .ok)
  | some node =>
    let r ← nodeAt chip.heap node
    let chip ← chip.free r.data
    let chip ← chip.fill fw node data
    some (chip, .ok)

def finish (size : ℕ) : Option (Chip A × Response) :=
  let length := chip.globals.kbRegisterBufferOffset + 1
  let old := (List.range length).map (mem.oldText chip.globals.mallocs)
  match chip.malloc fw mem length (.text old) with
  | (none, chip) => some (chip, .outOfMemory)
  | (some data, chip) => chip.store fw mem size data

def rawHidReceive (size : ℕ) (data : List UInt8) : Option (Chip A × Option Response) :=
  if data.headD 0 = msgFinish then (chip.finish fw mem size).map fun r => (r.1, some r.2)
  else
    let (globals, response) := Firmware.rawHidReceive fw chip.globals data
    some ({ chip with globals := globals }, response)

def sendString (bytes : List UInt8) : Option (List UInt8) :=
  if 0 ∈ bytes then some (untilNul bytes) else none

def processRecordUser (e : KeyEvent) : Option (Chip A × Option Played × Option Bool) :=
  if e.keycode = fw.kcRgui then
    some ({ chip with globals := { chip.globals with rguiPressed := e.pressed } }, none, some false)
  else if chip.globals.rguiPressed then
    if e.pressed then some (chip, none, some false)
    else if e.rightShift then
      let globals := { chip.globals with kbRegisterNextKeycode := e.keycode.toUInt8 }
      some ({ chip with globals := globals }, none, some false)
    else do
      match ← chip.getRegister e.keycode with
      | none => some (chip, some (.guiTap e.keycode), some false)
      | some node =>
        let r ← nodeAt chip.heap node
        let bytes ← r.data.bind (textAt chip.heap)
        let typed ← sendString bytes
        some (chip, some (.text typed), some false)
  else some (chip, none, none)

end Chip

end KbReg.Firmware
