import KbReg.Firmware.Staging
import KbReg.Host.Reading
import KbReg.Host.Transfer
import Mathlib.Data.List.ReduceOption

/-! Host and keyboard as two parties, with reports and replies in flight between them. -/

namespace KbReg.Protocol

open KbReg.Firmware KbReg.Host

structure Reply where
  index : ℕ
  response : Response
  deriving DecidableEq, Repr

/-- One open handle. `verdicts` lists the finished calls of `check_ok`: the reply that was judged, or none
if the call gave up. -/
structure Link where
  todo : List Bytes
  sent : List Bytes
  waiting : Bool
  reports : List Bytes
  keyboard : Keyboard
  processed : ℕ
  outbox : List Reply
  replies : List Reply
  verdicts : List (Option Reply)

inductive Move
  | send
  | process
  | reply
  | receive
  | giveUp
  | readError
  deriving DecidableEq, Repr

variable (fw : Build)

def Link.step (l : Link) : Move → Option Link
  | .send =>
    match l.waiting, l.todo with
    | false, report :: todo => some
      { l with
        todo := todo
        sent := l.sent ++ [report]
        waiting := true
        reports := l.reports ++ [report] }
    | _, _ => none
  | .process =>
    match l.reports with
    | [] => none
    | report :: reports =>
      let (kb, response) := rawHidReceive fw l.keyboard report.tail
      some
        { l with
          reports := reports
          keyboard := kb
          processed := l.processed + 1
          outbox := l.outbox ++ (response.map (Reply.mk l.processed)).toList }
  | .reply =>
    match l.outbox with
    | [] => none
    | reply :: outbox => some { l with outbox := outbox, replies := l.replies ++ [reply] }
  | .receive =>
    match l.waiting, l.replies with
    | true, reply :: replies => some
      { l with waiting := false, replies := replies, verdicts := l.verdicts ++ [some reply] }
    | _, _ => none
  | .giveUp =>
    -- the limit has passed without a reply
    if l.waiting ∧ l.replies.isEmpty then
      some { l with waiting := false, verdicts := l.verdicts ++ [none] }
    else none
  | .readError =>
    if l.waiting then some { l with waiting := false, verdicts := l.verdicts ++ [none] } else none

def start (kb : Keyboard) (calls : List Call) : Link :=
  ⟨calls.flatMap Call.reports, [], false, [], kb, 0, [], [], []⟩

def Attributed (l : Link) : Prop := ∀ (i : ℕ) (x : Reply), l.verdicts[i]? = some (some x) → x.index = i

def repliesTo (kb : Keyboard) (n : ℕ) : List Bytes → List Reply
  | [] => []
  | report :: reports =>
    ((rawHidReceive fw kb report.tail).2.map (Reply.mk n)).toList ++
      repliesTo (rawHidReceive fw kb report.tail).1 (n + 1) reports

def after (kb : Keyboard) (reports : List Bytes) : Keyboard :=
  reports.foldl (fun kb report => (rawHidReceive fw kb report.tail).1) kb

variable {fw}

lemma repliesTo_append (kb : Keyboard) (n : ℕ) (xs ys : List Bytes) : repliesTo fw kb n (xs ++ ys) =
    repliesTo fw kb n xs ++ repliesTo fw (after fw kb xs) (n + xs.length) ys := by
  induction xs generalizing kb n with
  | nil => rfl
  | cons x xs ih =>
    simp only [List.cons_append, repliesTo, ih, List.append_assoc, List.length_cons]
    rw [show n + 1 + xs.length = n + (xs.length + 1) by omega]
    rfl

lemma after_append (kb : Keyboard) (xs ys : List Bytes) :
    after fw kb (xs ++ ys) = after fw (after fw kb xs) ys := List.foldl_append

lemma frame_answered {calls : List Call} {report : Bytes} (h : report ∈ calls.flatMap Call.reports)
    (kb : Keyboard) : (rawHidReceive fw kb report.tail).2.isSome := by
  obtain ⟨call, _, hr⟩ := List.mem_flatMap.mp h
  cases call with
  | setKey key =>
    obtain rfl := List.mem_singleton.mp hr
    rfl
  | storeData data =>
    rw [Call.reports, storeReports, List.mem_cons, List.mem_append, List.mem_map,
      List.mem_singleton] at hr
    rcases hr with rfl | ⟨piece, _, rfl⟩ | rfl
    · change (rawHidReceive fw kb (msgSet :: _)).2.isSome
      rw [receive_set]
      rfl
    · change (rawHidReceive fw kb (msgAppend :: _)).2.isSome
      rw [receive_append]
      rfl
    · change (rawHidReceive fw kb (msgFinish :: _)).2.isSome
      rw [receive_finish]
      rfl

lemma repliesTo_index {reports : List Bytes}
    (h : ∀ report ∈ reports, ∀ kb, (rawHidReceive fw kb report.tail).2.isSome) (kb : Keyboard) (n : ℕ) :
    (repliesTo fw kb n reports).map Reply.index = List.range' n reports.length := by
  induction reports generalizing kb n with
  | nil => rfl
  | cons report reports ih =>
    obtain ⟨response, hr⟩ := Option.isSome_iff_exists.mp (h report (by simp) kb)
    simp only [repliesTo, hr, Option.map_some, Option.toList_some, List.map_append, List.length_cons,
      List.range'_succ]
    rw [ih fun r hm => h r (List.mem_cons_of_mem _ hm)]
    rfl

/-- Nothing overtakes anything: what was judged, what is on its way back and what the reports on their
way will be answered with are together the replies to the reports sent so far. -/
structure InOrder (fw : Build) (kb : Keyboard) (calls : List Call) (l : Link) : Prop where
  replies : l.verdicts.reduceOption ++ l.replies ++ l.outbox ++
    repliesTo fw l.keyboard l.processed l.reports = repliesTo fw kb 0 l.sent
  keyboard : after fw l.keyboard l.reports = after fw kb l.sent
  count : l.processed + l.reports.length = l.sent.length
  calls : l.sent ++ l.todo = calls.flatMap Call.reports

lemma inOrder_start (kb : Keyboard) (calls : List Call) : InOrder fw kb calls (start kb calls) :=
  ⟨rfl, rfl, rfl, rfl⟩

lemma InOrder.unanswered {kb : Keyboard} {calls : List Call} {l : Link} (h : InOrder fw kb calls l) :
    InOrder fw kb calls { l with waiting := false, verdicts := l.verdicts ++ [none] } := by
  refine ⟨?_, h.keyboard, h.count, h.calls⟩
  simpa [List.reduceOption_append, List.reduceOption_singleton] using h.replies

theorem inOrder_step {kb : Keyboard} {calls : List Call} {l l' : Link} {m : Move}
    (h : InOrder fw kb calls l) (hs : l.step fw m = some l') : InOrder fw kb calls l' := by
  have hunanswered := h.unanswered
  obtain ⟨hreplies, hkeyboard, hcount, hcalls⟩ := h
  cases m with
  | send =>
    simp only [Link.step] at hs
    split at hs
    · next report todo _ htodo =>
      obtain rfl := Option.some.inj hs
      refine ⟨?_, ?_, ?_, ?_⟩
      · simp only [repliesTo_append, ← hreplies, hkeyboard, hcount, List.append_assoc, Nat.zero_add]
      · simp only [after_append, hkeyboard]
      · simp only [List.length_append, List.length_singleton]
        omega
      · simp only [List.append_assoc, List.singleton_append, ← htodo, hcalls]
    · cases hs
  | process =>
    simp only [Link.step] at hs
    split at hs
    · cases hs
    · next report reports hreports =>
      obtain rfl := Option.some.inj hs
      rw [hreports] at hreplies hkeyboard hcount
      refine ⟨?_, hkeyboard, ?_, hcalls⟩
      · simpa only [repliesTo, List.append_assoc] using hreplies
      · simp only [List.length_cons] at hcount ⊢
        omega
  | reply =>
    simp only [Link.step] at hs
    split at hs
    · cases hs
    · next reply outbox houtbox =>
      obtain rfl := Option.some.inj hs
      rw [houtbox] at hreplies
      exact ⟨by simpa using hreplies, hkeyboard, hcount, hcalls⟩
  | receive =>
    simp only [Link.step] at hs
    split at hs
    · next reply replies _ hwaiting =>
      obtain rfl := Option.some.inj hs
      rw [hwaiting] at hreplies
      refine ⟨?_, hkeyboard, hcount, hcalls⟩
      simpa [List.reduceOption_append, List.reduceOption_singleton] using hreplies
    · cases hs
  | giveUp =>
    simp only [Link.step] at hs
    split_ifs at hs
    obtain rfl := Option.some.inj hs
    exact hunanswered
  | readError =>
    simp only [Link.step] at hs
    split_ifs at hs
    obtain rfl := Option.some.inj hs
    exact hunanswered

theorem inOrder_run {kb : Keyboard} {calls : List Call} {l : Link} {moves : List Move}
    (h : Runs.run (Link.step fw) (start kb calls) moves = some l) : InOrder fw kb calls l :=
  Runs.invariant inOrder_step h (inOrder_start kb calls)

lemma InOrder.judged {kb : Keyboard} {calls : List Call} {l : Link} (h : InOrder fw kb calls l) {i : ℕ}
    {x : Reply} (hx : l.verdicts[i]? = some (some x)) :
    x.index = (l.verdicts.take i).reduceOption.length ∧
      (repliesTo fw kb 0 l.sent)[x.index]? = some x := by
  set before := (l.verdicts.take i).reduceOption
  obtain ⟨rest, hrest⟩ : ∃ rest, repliesTo fw kb 0 l.sent = before ++ x :: rest := by
    obtain ⟨hi, hx⟩ := List.getElem?_eq_some_iff.mp hx
    have hsplit : l.verdicts = l.verdicts.take i ++ some x :: l.verdicts.drop (i + 1) := by
      rw [← hx, List.cons_getElem_drop_succ, List.take_append_drop]
    have hjudged : l.verdicts.reduceOption = before ++ x :: (l.verdicts.drop (i + 1)).reduceOption := by
      conv_lhs => rw [hsplit]
      rw [List.reduceOption_append, List.reduceOption_cons_of_some]
    rw [← h.replies, hjudged]
    exact ⟨_, by simp only [List.append_assoc, List.cons_append]; rfl⟩
  have hanswered : ∀ report ∈ l.sent, ∀ kb, (rawHidReceive fw kb report.tail).2.isSome := by
    intro report hm
    apply frame_answered
    rw [← h.calls]
    exact List.mem_append_left _ hm
  have hindex : x.index = before.length := by
    have hrange := repliesTo_index hanswered kb 0
    have hget := congrArg (fun l => l[before.length]?) hrange
    rw [hrest] at hget
    simp only [List.map_append, List.map_cons, List.getElem?_append_right, List.length_map, le_refl,
      Nat.sub_self, List.getElem?_cons_zero] at hget
    have hr := (List.getElem?_eq_some_iff.mp hget.symm).2
    simpa using hr.symm
  refine ⟨hindex, ?_⟩
  rw [hindex, hrest]
  simp

lemma isNone_count {α : Type*} (l : List (Option α)) :
    l.reduceOption.length + l.countP Option.isNone = l.length := by
  induction l with
  | nil => rfl
  | cons x l ih =>
    cases x with
    | none =>
      simp
      omega
    | some x =>
      simp
      omega

theorem judged_reply_index (fw : Build) (kb : Keyboard) (calls : List Call) (moves : List Move) (l : Link)
    (h : Runs.run (Link.step fw) (start kb calls) moves = some l) (i : ℕ) (x : Reply)
    (hx : l.verdicts[i]? = some (some x)) :
    x.index + (l.verdicts.take i).countP Option.isNone = i ∧
      (repliesTo fw kb 0 l.sent)[x.index]? = some x ∧
      (x.index = i ↔ ∀ v ∈ l.verdicts.take i, v ≠ none) := by
  obtain ⟨hindex, hreply⟩ := (inOrder_run h).judged hx
  have hi : i < l.verdicts.length := (List.getElem?_eq_some_iff.mp hx).1
  have hcount := isNone_count (l.verdicts.take i)
  rw [List.length_take, Nat.min_eq_left hi.le, ← hindex] at hcount
  have hnone : (l.verdicts.take i).countP Option.isNone = 0 ↔ ∀ v ∈ l.verdicts.take i, v ≠ none := by
    rw [List.countP_eq_zero]
    simp
  refine ⟨hcount, hreply, ?_⟩
  rw [← hnone]
  omega

theorem late_reply_misattributed :
    ¬ ∀ moves l, Runs.run (Link.step plainBuild)
      (start plainKeyboard [.setKey [97], .setKey [98]]) moves =
        some l → Attributed l := by
  intro h
  have hlate := h [.send, .giveUp, .process, .reply, .send, .receive] _ rfl 1 ⟨0, .ok⟩ rfl
  cases hlate

def promptLink : Link :=
  (Runs.run (Link.step plainBuild)
    (start plainKeyboard [.setKey [97]])
    [.send, .process, .reply, .receive]).get rfl

theorem judged_reply_index_prompt :
    (repliesTo plainBuild plainKeyboard 0
      promptLink.sent)[0]? = some ⟨0, .ok⟩ :=
  (judged_reply_index plainBuild plainKeyboard
    [.setKey [97]] [.send, .process, .reply, .receive] promptLink (Option.some_get _).symm 0 ⟨0, .ok⟩
    rfl).2.1

section Calls

def waitOf : Option Response → Wait
  | none => ⟨0, [⟨.bytes [], 5000001⟩], by decide⟩
  | some response =>
    ⟨0, [⟨.bytes (sendRawHidResponse response (List.replicate 31 0)), 0⟩], by cases response <;> rfl⟩

lemma waitOf_result (v : Option Response) : (waitOf v).result.1 = if v.isSome then 32 else -2 := by
  cases v with
  | none => decide
  | some response => cases response <;> decide

lemma waitOf_ok (v : Option Response) : (waitOf v).Ok ↔ v = some .ok := by
  cases v with
  | none => exact (ok_single _).trans (by decide)
  | some response => exact (ok_single _).trans (by cases response <;> decide)

theorem moves_are_calls {fw : Build} {kb : Keyboard} {calls : List Call} {moves : List Move} {l : Link}
    (hvalid : ∀ call ∈ calls, call.Valid)
    (h : Runs.run (Link.step fw) (start kb calls) moves = some l) :
    ∃ env t, runCalls env Session.fresh calls = .ok t ∧
      t.written.map Written.report = l.sent ++ l.todo ∧ t.checks = (l.sent ++ l.todo).length ∧
      ∀ (i : ℕ) (v : Option Reply), l.verdicts[i]? = some v →
        (env.wait i).result.1 = (if v.isSome then 32 else -2) ∧
        ((env.wait i).Ok ↔ v.map Reply.response = some .ok) := by
  let wait (i : ℕ) := waitOf ((l.verdicts.getD i none).map Reply.response)
  obtain ⟨t, ht, hw, hc⟩ :=
    runCalls_written ⟨fun _ => 33, fun _ => "", wait⟩ Session.fresh hvalid
  rw [← (inOrder_run h).calls] at hw hc
  refine ⟨_, t, ht, ?_, hc.trans (Nat.zero_add _), fun i v hv => ?_⟩
  · rw [hw]
    exact stamp_reports _ _ _
  · have hwait : wait i = waitOf (v.map Reply.response) := by
      simp only [wait, List.getD_eq_getElem?_getD, hv, Option.getD_some]
    change (wait i).result.1 = _ ∧ ((wait i).Ok ↔ _)
    rw [hwait, waitOf_result, waitOf_ok, Option.isSome_map]
    exact ⟨rfl, Iff.rfl⟩

end Calls

end KbReg.Protocol
