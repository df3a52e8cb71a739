import KbReg.Firmware.Receive
import KbReg.Host.Session
import KbReg.Lib.Pieces

namespace KbReg.Host

open KbReg.Firmware KbReg.Pieces

structure IStringStream where
  rest : Bytes
  eof : Bool

def IStringStream.read (iss : IStringStream) (n : ℕ) : Bytes × IStringStream :=
  -- only a read that comes back short sets the flag
  if iss.eof then ([], iss)
  else (iss.rest.take n, ⟨iss.rest.drop n, decide (iss.rest.length < n)⟩)

def IStringStream.left (iss : IStringStream) : ℕ := if iss.eof then 0 else iss.rest.length + 1

lemma IStringStream.read_left {iss : IStringStream} (h : ¬ iss.eof) :
    (iss.read 31).2.left < iss.left := by
  by_cases hs : iss.rest.length < 31
  · simp [IStringStream.left, IStringStream.read, h, hs]
  · simp [IStringStream.left, IStringStream.read, h, hs]
    omega

def header (id : UInt8) : Bytes := (zeros.set 0 0).set 1 id

inductive Stop
  | exit (code : ℤ)
  | outOfRange
  | nullPointer
  | wildPointer
  deriving DecidableEq, Repr

variable (env : Env)

def setKey (s : Session) : Bytes → Except Stop Session
  | [] => .error .outOfRange
  | k :: _ => .ok (send env { s with buf := (header msgKey).set 2 k })

def storeLoop (iss : IStringStream) (s : Session) : Session :=
  if _ : iss.eof then s
  else
    let piece := iss.read 31
    storeLoop piece.2 (send env { s with buf := poke (header msgAppend) 2 piece.1 })
termination_by iss.left
decreasing_by exact IStringStream.read_left ‹_›

def storeData (s : Session) (data : Bytes) : Session :=
  let iss : IStringStream := ⟨data, false⟩
  let piece := iss.read 31
  let s := send env { s with buf := poke (header msgSet) 2 piece.1 }
  let s := storeLoop env piece.2 s
  send env { s with buf := header msgFinish }

inductive Call
  | setKey (key : Bytes)
  | storeData (data : Bytes)
  deriving DecidableEq, Repr

def Call.run (s : Session) : Call → Except Stop Session
  | .setKey key => Host.setKey env s key
  | .storeData data => .ok (Host.storeData env s data)

def runCalls (s : Session) : List Call → Except Stop Session
  | [] => .ok s
  | call :: calls =>
    match call.run env s with
    | .error stop => .error stop
    | .ok s => runCalls s calls

def frame (id : UInt8) (payload : Bytes) : Bytes :=
  0 :: id :: (payload ++ List.replicate (31 - payload.length) 0)

def storeReports (data : Bytes) : List Bytes :=
  frame msgSet (data.take 31) ::
    ((pieces 31 data).tail.map (frame msgAppend) ++ [frame msgFinish []])

def Call.reports : Call → List Bytes
  | .setKey key => [frame msgKey [key.headD 0]]
  | .storeData data => storeReports data

def stamp (n : ℕ) : List Bytes → List Written
  | [] => []
  | report :: reports => ⟨report, env.write n⟩ :: stamp (n + 1) reports

lemma stamp_append (n : ℕ) (xs ys : List Bytes) :
    stamp env n (xs ++ ys) = stamp env n xs ++ stamp env (n + xs.length) ys := by
  induction xs generalizing n with
  | nil => rfl
  | cons x xs ih => simp [stamp, ih, Nat.add_assoc, Nat.add_comm 1]

lemma stamp_reports (n : ℕ) (xs : List Bytes) : (stamp env n xs).map Written.report = xs := by
  induction xs generalizing n with
  | nil => rfl
  | cons x xs ih => simp [stamp, ih]

lemma stamp_length (n : ℕ) (xs : List Bytes) : (stamp env n xs).length = xs.length := by
  rw [← List.length_map Written.report, stamp_reports]

lemma take_poke_header (id : UInt8) {payload : Bytes} (h : payload.length ≤ 31) :
    (poke (header id) 2 payload).take 33 = frame id payload := by
  obtain ⟨n, hn, he⟩ : ∃ n, 31 ≤ n ∧ header id = 0 :: id :: List.replicate n 0 :=
    ⟨254, by omega, rfl⟩
  have hm : min (31 - payload.length) (n - payload.length) = 31 - payload.length := by omega
  have hd : (0 :: id :: List.replicate n 0).drop (2 + payload.length) =
      List.replicate (n - payload.length) (0 : UInt8) := by
    rw [Nat.add_comm]
    simp
  simp [poke, he, hd, frame, List.take_append, List.take_of_length_le h, hm]

lemma take_header (id : UInt8) : (header id).take 33 = frame id [] := rfl

lemma pieces_tail {data : Bytes} (h : 31 ≤ data.length) :
    (pieces 31 data).tail = pieces 31 (data.drop 31) := by
  rw [pieces_cut (by omega) h, List.tail_cons]

section Sends

def sendAll (s : Session) : List Bytes → Session
  | [] => s
  | buf :: bufs => sendAll (send env { s with buf := buf }) bufs

lemma sendAll_append (s : Session) (xs ys : List Bytes) :
    sendAll env s (xs ++ ys) = sendAll env (sendAll env s xs) ys := by
  induction xs generalizing s with
  | nil => rfl
  | cons x xs ih => exact ih _

lemma sendAll_written (s : Session) (bufs : List Bytes) : (sendAll env s bufs).written =
    s.written ++ stamp env s.written.length (bufs.map (List.take 33)) := by
  induction bufs generalizing s with
  | nil => simp [sendAll, stamp]
  | cons buf bufs ih =>
    rw [sendAll, ih, send_written]
    simp [stamp]

lemma sendAll_checks (s : Session) (bufs : List Bytes) :
    (sendAll env s bufs).checks = s.checks + bufs.length := by
  induction bufs generalizing s with
  | nil => rfl
  | cons buf bufs ih =>
    rw [sendAll, ih, send_checks]
    simp only [List.length_cons]
    omega

lemma storeLoop_sends (data : Bytes) (s : Session) : storeLoop env ⟨data, false⟩ s =
    sendAll env s ((pieces 31 data).map (poke (header msgAppend) 2)) := by
  induction data using cut_induction (w := 31) (by omega) generalizing s with
  | short data h =>
    rw [storeLoop]
    simp only [IStringStream.read, Bool.false_eq_true, if_false, dite_false, h, decide_true]
    rw [storeLoop, pieces_short h, List.take_of_length_le (Nat.le_of_lt h)]
    rfl
  | cut data h ih =>
    rw [storeLoop]
    simp only [IStringStream.read, Bool.false_eq_true, if_false, dite_false, Nat.not_lt.mpr h,
      decide_false]
    rw [ih, pieces_cut (by omega) h]
    rfl

def storeBuffers (data : Bytes) : List Bytes :=
  poke (header msgSet) 2 (data.take 31) ::
    ((pieces 31 data).tail.map (poke (header msgAppend) 2) ++ [header msgFinish])

theorem storeData_sends (s : Session) (data : Bytes) :
    storeData env s data = sendAll env s (storeBuffers data) := by
  rw [storeBuffers, sendAll, sendAll_append]
  by_cases h : data.length < 31
  · simp only [storeData, IStringStream.read, Bool.false_eq_true, if_false, h, decide_true]
    rw [storeLoop, pieces_short h]
    rfl
  · have hle : 31 ≤ data.length := Nat.le_of_not_lt h
    simp only [storeData, IStringStream.read, Bool.false_eq_true, if_false, h, decide_false]
    rw [storeLoop_sends, pieces_tail hle]
    rfl

lemma storeBuffers_reports (data : Bytes) :
    (storeBuffers data).map (List.take 33) = storeReports data := by
  have htake : (data.take 31).length ≤ 31 := by simp
  have hrest : (pieces 31 data).tail.map (fun p => (poke (header msgAppend) 2 p).take 33) =
      (pieces 31 data).tail.map (frame msgAppend) := by
    apply List.map_congr_left
    intro p hp
    exact take_poke_header _ (length_le_of_mem (List.mem_of_mem_tail hp))
  simp only [storeBuffers, storeReports, List.map_cons, List.map_append, List.map_map, List.map_nil,
    take_poke_header _ htake, take_header]
  exact congrArg (fun l => _ :: (l ++ _)) hrest

theorem storeData_written (s : Session) (data : Bytes) :
    (storeData env s data).written =
      s.written ++ stamp env s.written.length (storeReports data) := by
  rw [storeData_sends, sendAll_written, storeBuffers_reports]

lemma frame_length (id : UInt8) {payload : Bytes} (h : payload.length ≤ 31) :
    (frame id payload).length = 33 := by
  simp only [frame, List.length_cons, List.length_append, List.length_replicate]
  omega

lemma storeReports_append {data : Bytes} {i : ℕ} (hpos : 1 ≤ i) (hle : i ≤ data.length / 31) :
    (storeReports data)[i]? = some (frame msgAppend ((data.drop (31 * i)).take 31)) := by
  obtain ⟨j, rfl⟩ : ∃ j, i = j + 1 := ⟨i - 1, by omega⟩
  have hj : j < ((pieces 31 data).tail.map (frame msgAppend)).length := by
    simp
    omega
  rw [storeReports, List.getElem?_cons_succ, List.getElem?_append_left hj, List.getElem?_map,
    List.getElem?_tail, pieces_getElem 31 data hle]
  rfl

lemma storeReports_length (data : Bytes) : (storeReports data).length = data.length / 31 + 2 := by
  simp [storeReports]

lemma storeReports_last (data : Bytes) :
    (storeReports data)[data.length / 31 + 1]? = some (frame msgFinish []) := by
  have hlen : ((pieces 31 data).tail.map (frame msgAppend)).length = data.length / 31 := by simp
  rw [storeReports, List.getElem?_cons_succ, List.getElem?_append_right hlen.le, hlen, Nat.sub_self]
  rfl

lemma storeReports_width {data report : Bytes} (h : report ∈ storeReports data) : report.length = 33 := by
  rcases List.mem_cons.mp h with rfl | h
  · exact frame_length _ (by simp)
  · rcases List.mem_append.mp h with h | h
    · obtain ⟨p, hp, rfl⟩ := List.mem_map.mp h
      exact frame_length _ (length_le_of_mem (List.mem_of_mem_tail hp))
    · rw [List.mem_singleton.mp h]
      rfl

lemma stamped_store (n : ℕ) (data : Bytes) :
    let sent := stamp env n (storeReports data)
    sent.length = data.length / 31 + 2 ∧
      (sent.map Written.report)[0]? = some (frame msgSet (data.take 31)) ∧
      (∀ i, 1 ≤ i → i ≤ data.length / 31 →
        (sent.map Written.report)[i]? = some (frame msgAppend ((data.drop (31 * i)).take 31))) ∧
      (sent.map Written.report)[data.length / 31 + 1]? = some (frame msgFinish []) ∧
      ∀ w ∈ sent, w.report.length = 33 := by
  refine ⟨?_, ?_, ?_, ?_, ?_⟩
  · rw [stamp_length, storeReports_length]
  · rw [stamp_reports]
    rfl
  · intro i hpos hle
    rw [stamp_reports]
    exact storeReports_append hpos hle
  · rw [stamp_reports]
    exact storeReports_last data
  · intro w hw
    have hreport := List.mem_map_of_mem (f := Written.report) hw
    rw [stamp_reports] at hreport
    exact storeReports_width hreport

theorem wire_image (env : Env) (s : Session) (data : Bytes) :
    ∃ sent, (storeData env s data).written = s.written ++ sent ∧
      sent.length = data.length / 31 + 2 ∧
      (sent.map Written.report)[0]? = some (frame msgSet (data.take 31)) ∧
      (∀ i, 1 ≤ i → i ≤ data.length / 31 →
        (sent.map Written.report)[i]? = some (frame msgAppend ((data.drop (31 * i)).take 31))) ∧
      (sent.map Written.report)[data.length / 31 + 1]? = some (frame msgFinish []) ∧
      ∀ w ∈ sent, w.report.length = 33 :=
  -- the reports are cut from the text alone, so neither the old buffer nor a reply leaves a byte in them
  ⟨_, storeData_written env s data, stamped_store env s.written.length data⟩

end Sends

def keyBuffer (key : Bytes) : Bytes := (header msgKey).set 2 (key.headD 0)

lemma keyBuffer_report (key : Bytes) :
    [keyBuffer key].map (List.take 33) = (Call.setKey key).reports := rfl

lemma setKey_sends (s : Session) {key : Bytes} (h : key ≠ []) :
    setKey env s key = .ok (sendAll env s [keyBuffer key]) := by
  cases key with
  | nil => exact absurd rfl h
  | cons k ks => rfl

def Call.buffers : Call → List Bytes
  | .setKey key => [keyBuffer key]
  | .storeData data => storeBuffers data

lemma buffers_reports (call : Call) : call.buffers.map (List.take 33) = call.reports := by
  cases call with
  | setKey key => exact keyBuffer_report key
  | storeData data => exact storeBuffers_reports data

def Call.Valid : Call → Prop
  | .setKey key => key ≠ []
  | .storeData _ => True

lemma runCalls_valid {env : Env} {s t : Session} {calls : List Call}
    (h : runCalls env s calls = .ok t) : ∀ call ∈ calls, call.Valid := by
  induction calls generalizing s with
  | nil => simp
  | cons call calls ih =>
    rw [runCalls] at h
    cases hrun : call.run env s with
    | error stop => simp [hrun] at h
    | ok u =>
      rw [hrun] at h
      rw [List.forall_mem_cons]
      constructor
      · cases call with
        | setKey key =>
          rintro rfl
          cases hrun
        | storeData data => trivial
      · exact ih h

lemma runCalls_stop {env : Env} {s : Session} {calls : List Call} {stop : Stop}
    (h : runCalls env s calls = .error stop) : stop = .outOfRange := by
  induction calls generalizing s with
  | nil => cases h
  | cons call calls ih =>
    rw [runCalls] at h
    cases call with
    | setKey key =>
      cases key with
      | nil =>
        cases h
        rfl
      | cons k key => exact ih h
    | storeData data => exact ih h

theorem runCalls_sends (s : Session) {calls : List Call} (h : ∀ call ∈ calls, call.Valid) :
    runCalls env s calls = .ok (sendAll env s (calls.flatMap Call.buffers)) := by
  induction calls generalizing s with
  | nil => rfl
  | cons call calls ih =>
    have hrun : call.run env s = .ok (sendAll env s call.buffers) := by
      cases call with
      | setKey key => exact setKey_sends env s (h (.setKey key) (by simp))
      | storeData data => exact congrArg Except.ok (storeData_sends env s data)
    rw [runCalls, hrun, List.flatMap_cons, sendAll_append]
    exact ih _ fun c hc => h c (List.mem_cons_of_mem _ hc)

theorem runCalls_written (s : Session) {calls : List Call} (h : ∀ call ∈ calls, call.Valid) :
    ∃ t, runCalls env s calls = .ok t ∧
      t.written = s.written ++ stamp env s.written.length (calls.flatMap Call.reports) ∧
      t.checks = s.checks + (calls.flatMap Call.reports).length := by
  have hreports : (calls.flatMap Call.buffers).map (List.take 33) = calls.flatMap Call.reports := by
    rw [List.map_flatMap]
    exact List.flatMap_congr fun call _ => buffers_reports call
  refine ⟨_, runCalls_sends env s h, ?_, ?_⟩
  · rw [sendAll_written, hreports]
  · rw [sendAll_checks, ← hreports, List.length_map]

end KbReg.Host
