import KbReg.Lib.Keyed
import Mathlib.Logic.Function.Basic

namespace KbReg.Firmware

open KbReg

structure Register where
  keycode : UInt16
  data : List UInt8
  deriving DecidableEq, Repr

/-- What the README leaves to one build, compiler and run of the firmware. -/
structure Build where
  bufferMax : ℕ
  report_fits : 31 ≤ bufferMax
  asciiToKeycodeLut : UInt8 → UInt8
  signedChar : Bool
  kcRgui : UInt16
  /-- Whether the `n`-th call of malloc since power-up returns memory. -/
  malloc : ℕ → Bool

inductive Access
  | byte (index : ℕ)
  | block (text : List UInt8)
  deriving DecidableEq, Repr

/-- The globals of the firmware. `kbRegisterBuffer` is the memory from the start of the buffer on, so
its cells from `bufferMax` on lie behind the buffer. `mallocs` and `log` are ghosts. -/
structure Keyboard where
  registerHead : List Register
  kbRegisterNextKeycode : UInt8
  kbRegisterBuffer : ℕ → UInt8
  kbRegisterBufferOffset : ℕ
  rguiPressed : Bool
  mallocs : ℕ
  log : List Access

inductive Response
  | ok
  | overflow
  | outOfMemory
  deriving DecidableEq, Repr

def Response.msg : Response → String
  | .ok => "OK"
  | .overflow => "Overflow"
  | .outOfMemory => "Out of Memory"

def readmeBuild (lut : UInt8 → UInt8) (malloc : ℕ → Bool) : Build :=
  ⟨8192, by decide, lut, false, 0x00E7, malloc⟩

def powerUp (fw : Build) (memory : ℕ → UInt8) : Keyboard :=
  ⟨[], 0, fun i => if i < fw.bufferMax then 0 else memory i, 0, false, 0, []⟩

def plainBuild : Build := readmeBuild id fun _ => true

def plainKeyboard : Keyboard := powerUp plainBuild fun _ => 0

def msgKey : UInt8 := 'K'.toUInt8
def msgSet : UInt8 := 'S'.toUInt8
def msgAppend : UInt8 := 'A'.toUInt8
def msgFinish : UInt8 := 'F'.toUInt8

lemma key_ne_finish : msgKey ≠ msgFinish := by decide
lemma set_ne_finish : msgSet ≠ msgFinish := by decide
lemma append_ne_finish : msgAppend ≠ msgFinish := by decide

variable (fw : Build)

def Build.widen (c : UInt8) : UInt16 :=
  if fw.signedChar then UInt16.ofBitVec (c.toBitVec.signExtend 16) else c.toUInt16

namespace Keyboard

variable (kb : Keyboard)

def getRegister (keycode : UInt16) : Option Register :=
  Keyed.find Register.keycode keycode kb.registerHead

def current : UInt16 := fw.widen kb.kbRegisterNextKeycode

def malloc : Bool × Keyboard := (fw.malloc kb.mallocs, { kb with mallocs := kb.mallocs + 1 })

def clearBuffer : Keyboard :=
  { kb with
    kbRegisterBuffer := fun i => if i < fw.bufferMax then 0 else kb.kbRegisterBuffer i
    kbRegisterBufferOffset := 0
    log := kb.log ++ (List.range fw.bufferMax).map .byte }

def push (x : UInt8) : Keyboard :=
  { kb with
    kbRegisterBuffer := Function.update kb.kbRegisterBuffer kb.kbRegisterBufferOffset x
    kbRegisterBufferOffset := kb.kbRegisterBufferOffset + 1
    log := kb.log ++ [.byte kb.kbRegisterBufferOffset] }

def copied : List UInt8 := (List.range (kb.kbRegisterBufferOffset + 1)).map kb.kbRegisterBuffer

def logCopy : Keyboard :=
  { kb with
    log := kb.log ++ (List.range (kb.kbRegisterBufferOffset + 1)).map .byte ++ [.block kb.copied] }

end Keyboard

def setLoop (kb : Keyboard) : List UInt8 → Keyboard
  | [] => kb
  | x :: xs => if x = 0 then kb else setLoop (kb.push x) xs

def appendLoop (kb : Keyboard) : List UInt8 → Keyboard × Response
  | [] => (kb, .ok)
  | x :: xs =>
    if kb.kbRegisterBufferOffset < fw.bufferMax then
      if x = 0 then (kb, .ok) else appendLoop (kb.push x) xs
    else (kb, .overflow)

/-- Append a node to the linked list. The fields of the node are the ones assigned right after the
call; the result tells whether malloc had memory for it. -/
def initNewRegister (kb : Keyboard) (node : Register) : Bool × Keyboard :=
  let (allocated, kb) := kb.malloc fw
  if allocated then (true, { kb with registerHead := kb.registerHead ++ [node] }) else (false, kb)

def finish (kb : Keyboard) : Keyboard × Response :=
  let (allocated, kb) := kb.malloc fw
  if allocated then
    let node : Register := ⟨kb.current fw, kb.copied⟩
    match kb.getRegister (kb.current fw) with
    | none =>
      let (appended, kb) := initNewRegister fw kb node
      if appended then (kb.logCopy, .ok) else (kb, .outOfMemory)
    | some _ =>
      let kb := { kb with registerHead := Keyed.overwrite Register.keycode node kb.registerHead }
      (kb.logCopy, .ok)
  else (kb, .outOfMemory)

def rawHidReceive (kb : Keyboard) (data : List UInt8) : Keyboard × Option Response :=
  let payload := data.tail
  if data.headD 0 = msgKey then
    ({ kb with kbRegisterNextKeycode := fw.asciiToKeycodeLut (payload.headD 0) }, some .ok)
  else if data.headD 0 = msgSet then
    (setLoop (kb.clearBuffer fw) payload, some .ok)
  else if data.headD 0 = msgAppend then
    let (kb, response) := appendLoop fw kb payload
    (kb, some response)
  else if data.headD 0 = msgFinish then
    let (kb, response) := finish fw kb
    (kb, some response)
  else (kb, none)

/-- The 32 bytes of a response. `strcpy` sets only the text and its terminator; the bytes `rest` behind
them are whatever was on the stack. -/
def sendRawHidResponse (response : Response) (rest : List UInt8) : List UInt8 :=
  (response.msg.toList.map Char.toUInt8 ++ 0 :: rest).take 32

structure KeyEvent where
  keycode : UInt16
  pressed : Bool
  rightShift : Bool
  deriving DecidableEq, Repr

inductive Played
  | guiTap (keycode : UInt16)
  | text (bytes : List UInt8)
  deriving DecidableEq, Repr

/-- `process_record_user` as far as the README prints it: what the keyboard types, and `none` as the
returned value where the printed part ends. -/
def processRecordUser (kb : Keyboard) (e : KeyEvent) : Keyboard × Option Played × Option Bool :=
  if e.keycode = fw.kcRgui then ({ kb with rguiPressed := e.pressed }, none, some false)
  else if kb.rguiPressed then
    if e.pressed then (kb, none, some false)
    else if e.rightShift then
      ({ kb with kbRegisterNextKeycode := e.keycode.toUInt8 }, none, some false)
    else match kb.getRegister e.keycode with
      | none => (kb, some (.guiTap e.keycode), some false)
      | some node => (kb, some (.text (node.data.takeWhile (· ≠ 0))), some false)
  else (kb, none, none)

end KbReg.Firmware
