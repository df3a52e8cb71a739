import KbReg.Cli.Main
import KbReg.Host.Diagnosis
import KbReg.Protocol.Playback
import KbReg.Protocol.Refusals

namespace KbReg.Cli

open KbReg.Firmware KbReg.Host KbReg.Protocol

def replyText (response : Response) : Bytes := response.msg.toList.map Char.toUInt8

def Brings (w : Wait) : Option Response → Prop
  | some response => ∃ rest, w.Report (sendRawHidResponse response rest)
  | none => w.EndsBy .late

def answerLines : Option Response → List String
  | some .ok => []
  | some response => [keyboardLine (replyText response)]
  | none => [timeoutLine]

variable (fw : Build) (env : Env)

def writeLines (n : ℕ) : List String :=
  if env.write n < 0 then ["Unable to write(): " ++ env.hidError n ++ "\n"] else []

def lines : ℕ → List (Option Response) → List String
  | _, [] => []
  | n, a :: as => writeLines env n ++ answerLines a ++ lines (n + 1) as

/-- Each check meets the answer to the report that was written right before it. -/
def InTurn (s : Session) (kb : Keyboard) (reports : List Bytes) : Prop :=
  ∀ i a, (answers fw kb (stamp env s.written.length reports))[i]? = some a →
    Brings (env.wait (s.checks + i)) a

variable {fw env} {s : Session}

lemma cString_reply (response : Response) (rest : Bytes) :
    cString (replyText response ++ 0 :: rest) = replyText response := by
  have hd : 0 ∉ replyText response := by cases response <;> decide
  exact untilNul_append_zero hd rfl

lemma reply_length (response : Response) (rest : Bytes) : ∃ tail,
    sendRawHidResponse response rest = replyText response ++ 0 :: tail := by
  refine ⟨rest.take (31 - (replyText response).length), ?_⟩
  have hlen : (replyText response).length ≤ 31 := by cases response <;> decide
  rw [sendRawHidResponse, ← replyText, List.take_append, List.take_of_length_le (by omega),
    show 32 - (replyText response).length = 31 - (replyText response).length + 1 by omega, List.take_succ_cons]

lemma replyText_eq_ok (response : Response) : replyText response = okText ↔ response = .ok := by
  cases response <;> decide

lemma printed_brings {a : Option Response} (h : Brings (env.wait s.checks) a) :
    printed env s = answerLines a := by
  cases a with
  | none => exact printed_stopped (by decide) h
  | some response =>
    obtain ⟨rest, hreport⟩ := h
    obtain ⟨-, hresult⟩ := report_result hreport
    obtain ⟨tail, hreply⟩ := reply_length response rest
    rw [hreply, List.append_assoc, List.cons_append] at hresult
    rw [printed_eq hresult, cString_reply]
    cases response <;> simp [replyText_eq_ok, answerLines]

lemma checkOk_console (s : Session) : (checkOk env s).console = s.console ++ printed env s := by
  have hprefix : s.console <+: (checkOk env s).console := by
    simp only [checkOk]
    split_ifs <;> simp [Session.print]
  obtain ⟨more, hmore⟩ := hprefix
  rw [printed, ← hmore, List.drop_left]

lemma send_console {a : Option Response} (h : Brings (env.wait s.checks) a) :
    (send env s).console = s.console ++ (writeLines env s.written.length ++ answerLines a) := by
  have hprinted (t : Session) (ht : t.checks = s.checks) : printed env t = answerLines a :=
    printed_brings (ht ▸ h)
  by_cases hw : env.write s.written.length < 0
  · simp [send, hidWrite, hw, writeLines, checkOk_console, hprinted, Session.print]
  · simp [send, hidWrite, hw, writeLines, checkOk_console, hprinted]

lemma inTurn_cons {kb : Keyboard} {report : Bytes} {reports : List Bytes}
    (h : InTurn fw env s kb (report :: reports)) {t : Session}
    (hw : t.written.length = s.written.length + 1) (hc : t.checks = s.checks + 1) :
    InTurn fw env t (arrive fw kb ⟨report, env.write s.written.length⟩) reports := by
  intro i a ha
  rw [hw] at ha
  have hi := h (i + 1) a (by rw [stamp, answers, List.getElem?_cons_succ, ha])
  rwa [hc, show s.checks + 1 + i = s.checks + (i + 1) by omega]

lemma sendAll_console {kb : Keyboard} {bufs : List Bytes}
    (h : InTurn fw env s kb (bufs.map (List.take 33))) : (sendAll env s bufs).console = s.console ++
      lines env s.written.length (answers fw kb (stamp env s.written.length (bufs.map (List.take 33)))) := by
  induction bufs generalizing s kb with
  | nil => simp [sendAll, stamp, answers, lines]
  | cons buf bufs ih =>
    set t := send env { s with buf := buf }
    have hwritten : t.written.length = s.written.length + 1 := by
      rw [send_written, List.length_append, List.length_singleton]
    have hchecks : t.checks = s.checks + 1 := send_checks _ _
    have hfirst : Brings (env.wait s.checks)
        (if env.write s.written.length < 0 then none
          else (rawHidReceive fw kb (buf.take 33).tail).2) := h 0 _ rfl
    have hconsole : t.console = s.console ++ _ := send_console (s := { s with buf := buf }) hfirst
    rw [List.map_cons] at h
    rw [sendAll, ih (inTurn_cons h hwritten hchecks), hconsole, hwritten, List.append_assoc]
    rfl

lemma lines_eq_nil_iff (kb : Keyboard) (n : ℕ) (reports : List Bytes) :
    lines env n (answers fw kb (stamp env n reports)) = [] ↔ AllOk fw kb (stamp env n reports) := by
  induction reports generalizing kb n with
  | nil => simp [stamp, answers, lines, allOk_nil]
  | cons report reports ih =>
    simp only [stamp, answers, lines, allOk_cons, List.append_eq_nil_iff, ih]
    apply and_congr_left
    intro _
    by_cases hw : env.write n < 0
    · simp [writeLines, hw, not_le.mpr hw]
    · simp only [writeLines, hw, not_lt.mp hw, if_false, true_and]
      cases (rawHidReceive fw kb report.tail).2 with
      | none => simp [answerLines]
      | some response => cases response <;> simp [answerLines]

lemma lines_delivered {n : ℕ} {as : List (Option Response)} (h : Arrives env n as.length) :
    lines env n as = as.flatMap answerLines := by
  induction as generalizing n with
  | nil => rfl
  | cons a as ih =>
    rw [List.length_cons, arrives_succ] at h
    rw [lines, ih h.2, writeLines, if_neg (not_lt.mpr h.1), List.nil_append, List.flatMap_cons]

lemma answers_length (kb : Keyboard) (n : ℕ) (reports : List Bytes) :
    (answers fw kb (stamp env n reports)).length = reports.length := by
  induction reports generalizing kb n with
  | nil => rfl
  | cons report reports ih => rw [stamp, answers, List.length_cons, List.length_cons, ih]

def overflowLine : String := keyboardLine (replyText .overflow)

def memoryLine : String := keyboardLine (replyText .outOfMemory)

lemma accepted_lines (count refused : ℕ) :
    (accepted count refused).flatMap answerLines = List.replicate refused overflowLine := by
  rw [accepted, List.flatMap_append, List.flatMap_replicate, List.flatMap_replicate]
  simp [answerLines, overflowLine]

variable {opts : Options}

lemma main_console {kb : Keyboard}
    (hturn : InTurn fw env s kb (keyReports opts ++ storeReports opts.data)) :
    (sendAll env (announce s opts) (mainBuffers opts)).console = s.console ++ opts.announced ++
      lines env s.written.length (answers fw kb
        (stamp env s.written.length (keyReports opts ++ storeReports opts.data))) := by
  rw [← mainBuffers_reports] at hturn ⊢
  exact sendAll_console (s := announce s opts) hturn

lemma reports_answers (hd : 0 ∉ opts.data) (kb : Keyboard) (n : ℕ)
    (hw : Arrives env n (keyReports opts ++ storeReports opts.data).length) :
    answers fw kb (stamp env n (keyReports opts ++ storeReports opts.data)) =
      List.replicate (keyReports opts).length (some .ok) ++
        accepted (opts.data.length / 31 + 1) (refused fw 0 opts.data.length) ++
          [some (if RoomFor fw kb (target fw kb opts) then .ok else .outOfMemory)] := by
  by_cases hk : opts.key = []
  · simp only [keyReports, target, hk, ne_eq, not_true_eq_false, if_false, List.nil_append,
      storeReports_length] at hw ⊢
    exact store_answers hd kb n hw
  · simp only [keyReports, target, ne_eq, hk, not_false_eq_true, if_true, List.singleton_append,
      List.length_cons, List.length_nil, storeReports_length] at hw ⊢
    rw [arrives_succ] at hw
    rw [stamp, answers, store_answers hd _ _ hw.2, arrive, if_neg (not_lt.mpr hw.1),
      if_neg (not_lt.mpr hw.1), frame_tail, receive_key]
    rfl

theorem console_tells (fw : Build) (hid : Hid) (env : Env) (s : Session) (kb : Keyboard)
    (opts : Options) (dev : Path) (hinit : hid.init = 0) (hhelp : opts.help = false)
    (hdev : openRaw hid opts.vendorId opts.productId = some dev)
    (hname : hid.manufacturer dev ≠ none ∧ hid.product dev ≠ none) (hd : 0 ∉ opts.data)
    (hturn : InTurn fw env s kb (keyReports opts ++ storeReports opts.data)) :
    ∃ t, main hid env s opts = .ok (0, t) ∧
      (t.console = s.console ++ opts.announced ↔
        Arrives env s.written.length (keyReports opts ++ storeReports opts.data).length ∧
          opts.data.length < fw.bufferMax ∧ RoomFor fw kb (target fw kb opts)) ∧
      (t.console = s.console ++ opts.announced → target fw kb opts ≠ fw.kcRgui →
        tapped fw (deliver fw kb (t.written.drop s.written.length)) (target fw kb opts) =
          some (.text opts.data)) ∧
      (Arrives env s.written.length (keyReports opts ++ storeReports opts.data).length →
        t.console = s.console ++ opts.announced ++
          List.replicate (refused fw 0 opts.data.length) overflowLine ++
            if RoomFor fw kb (target fw kb opts) then [] else [memoryLine]) := by
  have hnames : ¬ (hid.manufacturer dev = none ∨ hid.product dev = none) :=
    fun h => h.elim hname.1 hname.2
  have hconsole := main_console hturn
  have hsilent : (sendAll env (announce s opts) (mainBuffers opts)).console = s.console ++ opts.announced ↔
      AllOk fw kb (stamp env s.written.length (keyReports opts ++ storeReports opts.data)) := by
    rw [hconsole, ← lines_eq_nil_iff]
    exact List.append_right_eq_self
  refine ⟨_, main_runs hid env opts hinit hhelp hdev hnames s, ?_, ?_, ?_⟩
  · rw [hsilent, reports_ok_iff hd]
  · intro hs hc
    rw [sends_written]
    exact tapped_stored hc hd (reports_ok_stored hd (hsilent.mp hs))
  · intro hw
    have hkey : (List.replicate (keyReports opts).length (some Response.ok)).flatMap answerLines = [] := by
      simp [List.flatMap_replicate, answerLines]
    rw [hconsole, lines_delivered (by rwa [answers_length]), reports_answers hd kb _ hw,
      List.flatMap_append, List.flatMap_append, accepted_lines, hkey, List.nil_append,
      List.append_assoc (s.console ++ _)]
    by_cases hroom : RoomFor fw kb (target fw kb opts)
    · rw [if_pos hroom, if_pos hroom]
      rfl
    · rw [if_neg hroom, if_neg hroom]
      rfl

lemma promptOk_brings : Brings promptOk (some .ok) := by
  refine ⟨List.replicate 29 0, [], ⟨.bytes (okText ++ List.replicate 30 0), 0⟩, List.prefix_refl _, ?_,
    rfl, rfl⟩
  exact ⟨⟨nofun, fun h => absurd rfl h⟩, nofun, le_refl 32⟩

theorem console_tells_greeting :
    ∃ t, main slice65 (Env.prompt fun _ => 33) Session.fresh greeting = .ok (0, t) ∧ t.console = [] ∧
      tapped plainBuild (deliver plainBuild plainKeyboard t.written) 0 = some (.text [104, 105]) := by
  have hd : 0 ∉ greeting.data := by decide
  have hmet : Arrives (Env.prompt fun _ => 33) 0 (keyReports greeting ++ storeReports greeting.data).length ∧
      greeting.data.length < plainBuild.bufferMax ∧
        RoomFor plainBuild plainKeyboard (target plainBuild plainKeyboard greeting) :=
    ⟨fun _ _ => prompt_write _, by decide, rfl, fun _ => rfl⟩
  have hturn : InTurn plainBuild (Env.prompt fun _ => 33) Session.fresh plainKeyboard
      (keyReports greeting ++ storeReports greeting.data) := by
    intro i a ha
    obtain rfl := (reports_ok_iff hd plainKeyboard 0).mpr hmet a (List.mem_of_getElem? ha)
    exact promptOk_brings
  obtain ⟨t, hmain, hsilent, htyped, -⟩ := console_tells plainBuild slice65 (Env.prompt fun _ => 33)
    Session.fresh plainKeyboard greeting 1 rfl rfl rfl ⟨nofun, nofun⟩ hd hturn
  exact ⟨t, hmain, hsilent.mpr hmet, htyped (hsilent.mpr hmet) (by decide)⟩

end KbReg.Cli
