import KbReg.Protocol.Answers
import KbReg.Protocol.Replies

/-! A host that is answered with OK throughout has had its way, however slow the link. -/

namespace KbReg.Protocol

open KbReg.Firmware KbReg.Host

variable {fw : Build} {env : Env}

lemma store_ok_registers {data : Bytes} (hd : 0 ∉ data) {kb : Keyboard} {n : ℕ}
    (h : AllOk fw kb (stamp env n (storeReports data))) :
    registers fw (deliver fw kb (stamp env n (storeReports data))) =
      (registers fw kb).step (keycodeOf fw) (.storeData data) := by
  apply RegisterMap.ext
  · funext c
    by_cases hc : c = kb.current fw
    · subst hc
      refine (store_ok_stored hd h).trans ?_
      simp [registers, RegisterMap.step]
    · have hkept : (deliver fw kb (stamp env n (storeReports data))).stored c = kb.stored c := by
        rw [stored_after_store, if_neg fun hm => hc hm.2.2]
      refine hkept.trans ?_
      simp [registers, RegisterMap.step, hc]
  · exact current_after_store kb n data

theorem all_ok_registers {calls : List Call} (hd : ∀ data, .storeData data ∈ calls → 0 ∉ data)
    {kb : Keyboard} {n : ℕ} (h : AllOk fw kb (stamp env n (calls.flatMap Call.reports))) :
    registers fw (deliver fw kb (stamp env n (calls.flatMap Call.reports))) =
      (registers fw kb).run (keycodeOf fw) calls := by
  induction calls generalizing kb n with
  | nil => rfl
  | cons call calls ih =>
    rw [List.flatMap_cons, stamp_append, allOk_append] at h
    have hfirst : registers fw (deliver fw kb (stamp env n call.reports)) =
        (registers fw kb).step (keycodeOf fw) call := by
      cases call with
      | setKey key =>
        have hw : 0 ≤ env.write n := h.1.written _ (List.mem_singleton_self _)
        rw [Call.reports, deliver_key, if_neg (not_lt.mpr hw)]
        rfl
      | storeData data => exact store_ok_registers (hd data List.mem_cons_self) h.1
    rw [List.flatMap_cons, stamp_append, deliver_append,
      ih (fun data hm => hd data (List.mem_cons_of_mem _ hm)) h.2, hfirst]
    rfl

def sure : Env := Env.prompt fun _ => 33

lemma after_eq_deliver (kb : Keyboard) (n : ℕ) (reports : List Bytes) :
    after fw kb reports = deliver fw kb (stamp sure n reports) := by
  induction reports generalizing kb n with
  | nil => rfl
  | cons report reports ih => exact ih _ (n + 1)

lemma repliesTo_ok (kb : Keyboard) (n : ℕ) {reports : List Bytes}
    (hanswered : ∀ report ∈ reports, ∀ kb, (rawHidReceive fw kb report.tail).2.isSome)
    (h : ∀ x ∈ repliesTo fw kb n reports, x.response = .ok) : AllOk fw kb (stamp sure n reports) := by
  induction reports generalizing kb n with
  | nil => exact allOk_nil fw kb
  | cons report reports ih =>
    obtain ⟨response, hr⟩ := Option.isSome_iff_exists.mp (hanswered report List.mem_cons_self kb)
    rw [repliesTo, hr, Option.map_some, Option.toList_some] at h
    have hfirst := h ⟨n, response⟩ (List.mem_append_left _ (List.mem_singleton_self _))
    rw [stamp, allOk_cons]
    refine ⟨⟨prompt_write n, hr.trans (congrArg some hfirst)⟩, ?_⟩
    exact ih _ (n + 1) (fun r hm => hanswered r (List.mem_cons_of_mem _ hm))
      fun x hx => h x (List.mem_append_right _ hx)

lemma reduceOption_length_of_some {α : Type*} {l : List (Option α)} (h : ∀ v ∈ l, v.isSome) :
    l.reduceOption.length = l.length := by
  rw [← isNone_count l, List.countP_eq_zero.mpr]
  · rfl
  · intro v hv
    simpa using Option.isSome_iff_ne_none.mp (h v hv)

variable {kb : Keyboard} {calls : List Call} {l : Link}

lemma pending_step {l' : Link} {m : Move} (h : l.reports <:+ l.sent) (hs : l.step fw m = some l') :
    l'.reports <:+ l'.sent := by
  cases m with
  | send =>
    simp only [Link.step] at hs
    split at hs
    · obtain rfl := Option.some.inj hs
      obtain ⟨processed, hsent⟩ := h
      exact ⟨processed, by rw [← hsent, List.append_assoc]⟩
    · cases hs
  | process =>
    simp only [Link.step] at hs
    split at hs
    · cases hs
    · next report reports hreports =>
      obtain rfl := Option.some.inj hs
      rw [hreports] at h
      exact (List.suffix_cons report reports).trans h
  | reply =>
    simp only [Link.step] at hs
    split at hs
    · cases hs
    · obtain rfl := Option.some.inj hs
      exact h
  | receive =>
    simp only [Link.step] at hs
    split at hs
    · obtain rfl := Option.some.inj hs
      exact h
    · cases hs
  | giveUp =>
    simp only [Link.step] at hs
    split_ifs at hs
    obtain rfl := Option.some.inj hs
    exact h
  | readError =>
    simp only [Link.step] at hs
    split_ifs at hs
    obtain rfl := Option.some.inj hs
    exact h

lemma InOrder.answered (h : InOrder fw kb calls l) :
    ∀ report ∈ l.sent, ∀ kb, (rawHidReceive fw kb report.tail).2.isSome := by
  intro report hm
  apply frame_answered
  rw [← h.calls]
  exact List.mem_append_left _ hm

lemma InOrder.settled (h : InOrder fw kb calls l) (hpending : l.reports <:+ l.sent)
    (hjudged : l.verdicts.length = l.sent.length) (hsome : ∀ v ∈ l.verdicts, v.isSome) :
    l.verdicts.reduceOption = repliesTo fw kb 0 l.sent ∧ l.reports = [] := by
  have hlength {reports : List Bytes} (hm : reports <:+ l.sent) (kb : Keyboard) (n : ℕ) :
      (repliesTo fw kb n reports).length = reports.length := by
    rw [← List.length_map Reply.index, repliesTo_index, List.length_range']
    exact fun report hr => h.answered report (hm.subset hr)
  have hprefix : l.verdicts.reduceOption <+: repliesTo fw kb 0 l.sent := by
    rw [← h.replies, List.append_assoc, List.append_assoc]
    exact List.prefix_append _ _
  have heq : l.verdicts.reduceOption = repliesTo fw kb 0 l.sent := by
    apply hprefix.eq_of_length
    rw [reduceOption_length_of_some hsome, hjudged, hlength (List.suffix_refl _)]
  refine ⟨heq, ?_⟩
  have hrest := h.replies
  rw [← heq, List.append_assoc, List.append_assoc, List.append_right_eq_self] at hrest
  have hnone := (List.append_eq_nil_iff.mp (List.append_eq_nil_iff.mp hrest).2).2
  rw [← List.length_eq_zero_iff, ← hlength hpending l.keyboard l.processed, hnone]
  rfl

theorem silent_run_refines (fw : Build) (kb : Keyboard) (calls : List Call) (moves : List Move) (l : Link)
    (hd : ∀ data, .storeData data ∈ calls → 0 ∉ data)
    (h : Runs.run (Link.step fw) (start kb calls) moves = some l) (htodo : l.todo = [])
    (hjudged : l.verdicts.length = l.sent.length)
    (hok : ∀ v ∈ l.verdicts, v.map Reply.response = some .ok) :
    registers fw l.keyboard = (registers fw kb).run (keycodeOf fw) calls ∧ l.reports = [] := by
  have horder := inOrder_run h
  have hpending : l.reports <:+ l.sent := Runs.invariant pending_step h (List.suffix_refl _)
  have hsome : ∀ v ∈ l.verdicts, v.isSome := by
    intro v hv
    obtain ⟨x, hx, -⟩ := Option.map_eq_some_iff.mp (hok v hv)
    exact Option.isSome_of_eq_some hx
  obtain ⟨hreplies, hreports⟩ := horder.settled hpending hjudged hsome
  have hall : AllOk fw kb (stamp sure 0 l.sent) := by
    apply repliesTo_ok kb 0 horder.answered
    intro x hx
    rw [← hreplies] at hx
    exact Option.some.inj (hok (some x) (List.reduceOption_mem_iff.mp hx))
  have hkeyboard := horder.keyboard
  rw [hreports, after_eq_deliver kb 0] at hkeyboard
  have hsent : l.sent = calls.flatMap Call.reports := by rw [← horder.calls, htodo, List.append_nil]
  rw [hsent] at hall hkeyboard
  refine ⟨?_, hreports⟩
  rw [show l.keyboard = _ from hkeyboard]
  exact all_ok_registers hd hall

def promptMoves : List Move := (List.replicate 3 [.send, .process, .reply, .receive]).flatten

theorem silent_run_refines_greeting : ∃ l, Runs.run (Link.step plainBuild)
      (start plainKeyboard [.setKey [97], .storeData [104, 105]]) promptMoves = some l ∧
    l.keyboard.stored 97 = some [104, 105, 0] := by
  refine ⟨_, rfl, ?_⟩
  have hregisters := (silent_run_refines plainBuild plainKeyboard [.setKey [97], .storeData [104, 105]]
    promptMoves _ (by simp) rfl rfl rfl (by decide)).1
  exact congrFun (congrArg RegisterMap.text hregisters) 97

end KbReg.Protocol
