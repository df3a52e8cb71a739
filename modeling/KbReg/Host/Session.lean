import Mathlib.Data.List.Basic
import Mathlib.Data.Nat.Cast.Order.Ring
import Mathlib.Tactic.Common

namespace KbReg.Host

abbrev Bytes := List UInt8

def bufSize : ℕ := 256

def zeros : Bytes := List.replicate bufSize 0

def poke (buf : Bytes) (pos : ℕ) (bytes : Bytes) : Bytes :=
  buf.take pos ++ bytes ++ buf.drop (pos + bytes.length)

def cString (buf : Bytes) : Bytes := buf.takeWhile (· ≠ 0)

inductive HidRead
  | error
  | bytes (data : Bytes)
  deriving DecidableEq, Repr

/-- One `hid_read` in the loop of `read`, with the clock in nanoseconds right after it. -/
structure Poll where
  result : HidRead
  now : ℕ
  deriving DecidableEq, Repr

/-- The loop of `read`. A `hid_read` stores at the start of the buffer, however much came before. There
is no result as long as the loop polls on. -/
def readLoop (amt timeout start : ℕ) : List Poll → ℕ → Bytes → Option (ℤ × Bytes)
  | [], _, _ => none
  | poll :: polls, count, buf =>
    match poll.result with
    | .error => some (-2, buf)
    | .bytes data =>
      let stored := data.take (amt - count)
      let buf := poke buf 0 stored
      let count := count + stored.length
      if count = amt then some (count, buf)
      else if timeout < poll.now - start then some (-2, buf)
      else readLoop amt timeout start polls count buf

def read (buf : Bytes) (amt timeout start : ℕ) (polls : List Poll) : Option (ℤ × Bytes) :=
  readLoop amt timeout start polls 0 buf

def checkTimeout : ℕ := 5000000

structure Wait where
  start : ℕ
  polls : List Poll
  ends : (read zeros 32 checkTimeout start polls).isSome

def Wait.result (w : Wait) : ℤ × Bytes := (read zeros 32 checkTimeout w.start w.polls).get w.ends

/-- What the device and the system do to a process that uses one handle: the result of the `n`-th
`hid_write`, the text of an error at that point, and the `n`-th wait for a reply. -/
structure Env where
  write : ℕ → ℤ
  hidError : ℕ → String
  wait : ℕ → Wait

structure Written where
  report : Bytes
  res : ℤ
  deriving DecidableEq, Repr

structure Session where
  buf : Bytes
  written : List Written
  checks : ℕ
  console : List String

def Session.print (s : Session) (text : String) : Session := { s with console := s.console ++ [text] }

def okText : Bytes := [0x4F, 0x4B]

def text (bytes : Bytes) : String := String.ofList (bytes.map fun b => Char.ofNat b.toNat)

variable (env : Env)

def promptOk : Wait := ⟨0, [⟨.bytes (okText ++ List.replicate 30 0), 0⟩], rfl⟩

def Env.prompt (write : ℕ → ℤ) : Env := ⟨write, fun _ => "", fun _ => promptOk⟩

def Session.fresh : Session := ⟨zeros, [], 0, []⟩

lemma prompt_write (n : ℕ) : 0 ≤ (Env.prompt fun _ => 33).write n := by
  change (0 : ℤ) ≤ 33
  decide

def hidWrite (s : Session) (length : ℕ) : ℤ × Session :=
  let res := env.write s.written.length
  (res, { s with written := s.written ++ [⟨s.buf.take length, res⟩] })

def checkOk (s : Session) : Session :=
  let (res, buf) := (env.wait s.checks).result
  let s := { s with buf := buf, checks := s.checks + 1 }
  let s := if res = -1 then s.print "Error reading from usb device\n" else s
  let s := if res = -2 then s.print "Timeout reading from usb device\n" else s
  if 0 < res then
    if cString buf ≠ okText then s.print ("Error from keyboard: " ++ text (cString buf) ++ "\n") else s
  else s

def send (s : Session) : Session :=
  let (res, s) := hidWrite env s 33
  let s := if res < 0 then
      s.print ("Unable to write(): " ++ env.hidError (s.written.length - 1) ++ "\n")
    else s
  checkOk env s

@[simp] lemma print_written (s : Session) (t : String) : (s.print t).written = s.written := rfl
@[simp] lemma print_checks (s : Session) (t : String) : (s.print t).checks = s.checks := rfl

@[simp] lemma checkOk_written (s : Session) : (checkOk env s).written = s.written := by
  simp only [checkOk]
  split_ifs <;> rfl

@[simp] lemma checkOk_checks (s : Session) : (checkOk env s).checks = s.checks + 1 := by
  simp only [checkOk]
  split_ifs <;> rfl

lemma send_written (s : Session) :
    (send env s).written = s.written ++ [⟨s.buf.take 33, env.write s.written.length⟩] := by
  by_cases h : env.write s.written.length < 0
  · simp [send, hidWrite, h]
  · simp [send, hidWrite, h]

lemma send_checks (s : Session) : (send env s).checks = s.checks + 1 := by
  by_cases h : env.write s.written.length < 0
  · simp [send, hidWrite, h]
  · simp [send, hidWrite, h]

lemma readLoop_ends {amt timeout start : ℕ} {polls : List Poll} (count : ℕ) (buf : Bytes)
    (h : ∃ poll ∈ polls, timeout < poll.now - start) :
    (readLoop amt timeout start polls count buf).isSome := by
  induction polls generalizing count buf with
  | nil => simp at h
  | cons poll polls ih =>
    rw [readLoop]
    cases poll.result with
    | error => rfl
    | bytes data =>
      dsimp only
      split_ifs with hfull hlate
      · rfl
      · rfl
      · apply ih
        obtain ⟨p, hp, ht⟩ := h
        rcases List.mem_cons.mp hp with rfl | hp
        · exact absurd ht hlate
        · exact ⟨p, hp, ht⟩

end KbReg.Host
