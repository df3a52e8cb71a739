import KbReg.Protocol.Registers
import Mathlib.Data.List.Induction

namespace KbReg.Protocol

open KbReg.Firmware KbReg.Host KbReg.Pieces

section OneTransfer

variable (fw : Build) (env : Env) (s : Session) (kb : Keyboard) (data : Bytes)

def afterStore : Keyboard :=
  deliver fw kb ((storeData env s data).written.drop s.written.length)

def AllOrNothing : Prop :=
  (afterStore fw env s kb data).stored (kb.current fw) = some (data ++ [0]) ∨
    (afterStore fw env s kb data).stored (kb.current fw) = kb.stored (kb.current fw)

def Finished (n : ℕ) : Prop := 0 ≤ env.write (n + (data.length / 31 + 1))

instance (n : ℕ) : Decidable (Finished env data n) := inferInstanceAs (Decidable (0 ≤ env.write _))

def Complete (n : ℕ) : Prop :=
  data.length < fw.bufferMax ∧ 0 ≤ env.write n ∧
    ∀ i, 31 * (i + 1) < data.length → 0 ≤ env.write (n + 1 + i)

lemma afterStore_eq : afterStore fw env s kb data =
    deliver fw kb (stamp env s.written.length (storeReports data)) := by
  rw [afterStore, storeData_written, List.drop_left]

variable {env data}

lemma arrived_flatten {n : ℕ} {ps : List Bytes}
    (h : ∀ (i : ℕ) (hi : i < ps.length), env.write (n + i) < 0 → ps[i] = []) :
    (arrived env n ps).flatten = ps.flatten := by
  induction ps generalizing n with
  | nil => rfl
  | cons p ps ih =>
    have hs := ih (n := n + 1) fun i hi hl =>
      h (i + 1) (by simpa using hi) (by rwa [show n + (i + 1) = n + 1 + i by omega])
    simp only [arrived]
    split_ifs with hlost
    · have hp : p = [] := h 0 (by simp) (by simpa using hlost)
      simp [hp, hs]
    · simp [hs]

lemma staged_complete {n : ℕ} (left : Bytes) (h : Complete fw env data n) :
    staged fw env n left data = data := by
  obtain ⟨hfit, hset, happend⟩ := h
  have ha : (arrived env (n + 1) (pieces 31 data).tail).flatten = (pieces 31 data).tail.flatten := by
    apply arrived_flatten
    intro i hi hlost
    have hlong : data.length ≤ 31 * (i + 1) :=
      Nat.le_of_not_lt fun hl => absurd (happend i hl) (not_le.mpr hlost)
    simp [pieces, piece, List.drop_eq_nil_of_le hlong]
  rw [staged, if_neg (not_lt.mpr hset), ha, take_append_tail_flatten,
    List.take_of_length_le (Nat.le_of_lt hfit)]

lemma afterStore_staged (left : Bytes) (hd : 0 ∉ data)
    (hs : 0 ≤ env.write s.written.length ∨ Holds fw kb left)
    (hfit : (staged fw env s.written.length left data).length < fw.bufferMax) :
    (afterStore fw env s kb data).stored (kb.current fw) =
      if Finished env data s.written.length ∧ Room fw kb then
        some (staged fw env s.written.length left data ++ [0])
      else kb.stored (kb.current fw) := by
  have hb := deliver_body_holds fw env kb s.written.length left hd hs
  rw [afterStore_eq, stored_after_store, copied_of_holds hb hfit]
  simp only [and_true]
  rfl

theorem store_outcome (fw : Build) (env : Env) (s : Session) (kb : Keyboard) (data : Bytes)
    (hd : 0 ∉ data) :
    (¬ (Finished env data s.written.length ∧ Room fw kb) →
      (afterStore fw env s kb data).stored (kb.current fw) = kb.stored (kb.current fw)) ∧
    (∀ left, 0 ≤ env.write s.written.length ∨ Holds fw kb left →
      (staged fw env s.written.length left data).length < fw.bufferMax →
      Finished env data s.written.length ∧ Room fw kb →
      (afterStore fw env s kb data).stored (kb.current fw) =
        some (staged fw env s.written.length left data ++ [0])) ∧
    (Complete fw env data s.written.length → AllOrNothing fw env s kb data) := by
  refine ⟨fun h => ?_, fun left hs hfit h => ?_, fun h => ?_⟩
  · rw [afterStore_eq, stored_after_store, if_neg]
    rintro ⟨hf, hr, _⟩
    exact h ⟨hf, hr⟩
  · rw [afterStore_staged fw s kb left hd hs hfit, if_pos h]
  · have hstaged := staged_complete fw [] h
    have hh := afterStore_staged fw s kb [] hd (Or.inl h.2.1) (by rw [hstaged]; exact h.1)
    rw [hstaged] at hh
    rw [AllOrNothing, hh]
    split_ifs
    · exact Or.inl rfl
    · exact Or.inr rfl

def losing (lost : ℕ) : Env := Env.prompt fun n => if n = lost then -1 else 33

theorem store_truncates :
    -- a lost A, a lost S, and a text that does not fit
    ¬ AllOrNothing plainBuild (losing 1) Session.fresh plainKeyboard (List.replicate 32 97) ∧
      ¬ AllOrNothing plainBuild (losing 0) Session.fresh plainKeyboard (List.replicate 32 97) ∧
      ¬ AllOrNothing { plainBuild with bufferMax := 31, report_fits := Nat.le_refl 31 }
        (Env.prompt fun _ => 33) Session.fresh plainKeyboard (List.replicate 32 97) := by
  simp only [AllOrNothing, afterStore_eq]
  decide +kernel

theorem store_outcome_full :
    (afterStore plainBuild (Env.prompt fun _ => 33) Session.fresh
      plainKeyboard [104, 105]).stored 0 = some [104, 105, 0] := by
  refine (store_outcome plainBuild (Env.prompt fun _ => 33) Session.fresh
    plainKeyboard [104, 105] (by decide)).2.1 [] ?_ ?_ ?_
  · exact Or.inl (by decide)
  · decide +kernel
  · exact ⟨by decide, rfl, fun _ => rfl⟩

end OneTransfer

section Pairs

def isKey (w : Written) : Prop := w.report.tail.headD 0 = msgKey

def isFinish (w : Written) : Prop := w.report.tail.headD 0 = msgFinish

def pairCalls (pairs : List (Bytes × Bytes)) : List Call :=
  pairs.flatMap fun p => [.setKey p.1, .storeData p.2]

def Selected (sent : List Written) : Prop :=
  ∀ pre w post, sent = pre ++ w :: post → isFinish w → 0 ≤ w.res → ∃ v ∈ pre, isKey v ∧ 0 ≤ v.res

variable (fw : Build) (env : Env) (kb : Keyboard)

def OwnText (pairs : List (Bytes × Bytes)) (kb' : Keyboard) (c : UInt16) : Prop :=
  kb'.stored c = kb.stored c ∨
    ∃ p ∈ pairs, keycodeOf fw (p.1.headD 0) = c ∧ kb'.stored c = some (p.2 ++ [0])

instance (pairs : List (Bytes × Bytes)) (kb' : Keyboard) (c : UInt16) :
    Decidable (OwnText fw kb pairs kb' c) := inferInstanceAs (Decidable (_ ∨ ∃ p ∈ pairs, _ ∧ _))

def selection (n : ℕ) (current : UInt16) (key : Bytes) : UInt16 :=
  if env.write n < 0 then current else keycodeOf fw (key.headD 0)

/-- From the `n`-th write on, every transfer whose F arrives while `c` is selected is for a key with this
keycode, and arrives as a whole and fits. -/
def Sound (c : UInt16) : ℕ → UInt16 → List (Bytes × Bytes) → Prop
  | _, _, [] => True
  | n, current, p :: pairs =>
    (Finished env p.2 (n + 1) → selection fw env n current p.1 = c →
      keycodeOf fw (p.1.headD 0) = c ∧ 0 ∉ p.2 ∧ Complete fw env p.2 (n + 1)) ∧
        Sound c (n + (p.2.length / 31 + 3)) (selection fw env n current p.1) pairs

variable {fw env kb}

lemma report_of_mem_stamp {n : ℕ} {rs : List Bytes} {w : Written} (h : w ∈ stamp env n rs) :
    w.report ∈ rs := by
  rw [← stamp_reports env n rs]
  exact List.mem_map_of_mem h

lemma res_of_mem_stamp {n : ℕ} {rs : List Bytes} {w : Written} (h : w ∈ stamp env n rs) :
    ∃ m, w.res = env.write m := by
  induction rs generalizing n with
  | nil => cases h
  | cons r rs ih =>
    rcases List.mem_cons.mp h with rfl | h
    · exact ⟨n, rfl⟩
    · exact ih h

lemma arrive_stored {w : Written} (h : ¬ isFinish w) : (arrive fw kb w).stored = kb.stored := by
  simp only [arrive]
  split_ifs
  · rfl
  · exact receive_stored fw kb h

lemma deliver_stored {ws : List Written} (h : ∀ w ∈ ws, ¬ isFinish w) :
    (deliver fw kb ws).stored = kb.stored := by
  induction ws generalizing kb with
  | nil => rfl
  | cons w ws ih =>
    rw [deliver_cons, ih fun v hv => h v (List.mem_cons_of_mem _ hv), arrive_stored (h w (by simp))]

lemma body_not_finish (data : Bytes) {r : Bytes} (h : r ∈ bodyReports data) :
    r.tail.headD 0 ≠ msgFinish ∧ r.tail.headD 0 ≠ msgKey := by
  rcases List.mem_cons.mp h with rfl | h
  · exact ⟨set_ne_finish, show msgSet ≠ msgKey by decide⟩
  · obtain ⟨p, _, rfl⟩ := List.mem_map.mp h
    exact ⟨append_ne_finish, show msgAppend ≠ msgKey by decide⟩

lemma current_step {keys : List UInt16} {w : Written}
    (hkey : isKey w → keycodeOf fw (w.report.tail.tail.headD 0) ∈ keys)
    (h : kb.current fw ∈ keys ∨ isKey w ∧ 0 ≤ w.res) : (arrive fw kb w).current fw ∈ keys := by
  simp only [arrive]
  split_ifs with hlost
  · exact h.resolve_right fun hk => absurd hlost (not_lt.mpr hk.2)
  · by_cases hk : isKey w
    · rw [receive_key_current fw kb hk]
      exact hkey hk
    · rw [receive_current fw kb hk]
      exact h.resolve_right fun hk' => hk hk'.1

lemma frame_step {keys : List UInt16} {w : Written}
    (h : isFinish w → 0 ≤ w.res → kb.current fw ∈ keys) {c : UInt16} (hc : c ∉ keys) :
    (arrive fw kb w).stored c = kb.stored c := by
  by_cases hf : isFinish w
  · simp only [arrive]
    split_ifs with hlost
    · rfl
    · apply receive_stored_ne
      rintro rfl
      exact hc (h hf (not_lt.mp hlost))
  · rw [arrive_stored hf]

lemma frame_run {keys : List UInt16} {ws : List Written} (hsel : Selected ws)
    (hkeys : ∀ w ∈ ws, isKey w → keycodeOf fw (w.report.tail.tail.headD 0) ∈ keys) :
    (∀ c, c ∉ keys → (deliver fw kb ws).stored c = kb.stored c) ∧
      ((∃ v ∈ ws, isKey v ∧ 0 ≤ v.res) → (deliver fw kb ws).current fw ∈ keys) := by
  induction ws using List.reverseRecOn with
  | nil => exact ⟨fun _ _ => rfl, fun ⟨v, hv, _⟩ => by cases hv⟩
  | append_singleton ws w ih =>
    have hpre : Selected ws := fun pre v post he => hsel pre v (post ++ [w]) (by simp [he])
    obtain ⟨hstored, hcurrent⟩ := ih hpre fun v hv => hkeys v (by simp [hv])
    rw [deliver_append]
    refine ⟨fun c hc => ?_, fun hex => ?_⟩
    · -- an F message stores under the current keycode, which an earlier K has put among `keys`
      rw [← hstored c hc]
      apply frame_step _ hc
      intro hf hres
      exact hcurrent (hsel ws w [] rfl hf hres)
    · apply current_step (hkeys w (by simp))
      obtain ⟨v, hv, hk⟩ := hex
      rcases List.mem_append.mp hv with hv | hv
      · exact Or.inl (hcurrent ⟨v, hv, hk⟩)
      · exact Or.inr (List.mem_singleton.mp hv ▸ hk)

lemma Selected.of_prefix {ws sent : List Written} (h : Selected sent) (hp : ws <+: sent) :
    Selected ws := by
  obtain ⟨rest, rfl⟩ := hp
  exact fun pre w post he => h pre w (post ++ rest) (by simp [he])

lemma prefix_append_cases {α : Type} {ws xs ys : List α} (h : ws <+: xs ++ ys) :
    ws <+: xs ∨ ∃ zs, zs <+: ys ∧ ws = xs ++ zs := by
  rcases List.prefix_or_prefix_of_prefix h (List.prefix_append xs ys) with hp | ⟨zs, rfl⟩
  · exact Or.inl hp
  · exact Or.inr ⟨zs, (List.prefix_append_right_inj xs).mp h, rfl⟩

def pairReports (p : Bytes × Bytes) : List Bytes :=
  frame msgKey [p.1.headD 0] :: storeReports p.2

lemma pairCalls_reports (pairs : List (Bytes × Bytes)) :
    (pairCalls pairs).flatMap Call.reports = pairs.flatMap pairReports := by
  simp only [pairCalls, List.flatMap_assoc, List.flatMap_cons, List.flatMap_nil, List.append_nil,
    Call.reports]
  rfl

lemma pairReports_length (p : Bytes × Bytes) : (pairReports p).length = p.2.length / 31 + 3 := by
  simp [pairReports, storeReports]

lemma key_of_pairReports {pairs : List (Bytes × Bytes)} {r : Bytes} (h : r ∈ pairs.flatMap pairReports)
    (hk : r.tail.headD 0 = msgKey) :
    keycodeOf fw (r.tail.tail.headD 0) ∈ pairs.map fun p => keycodeOf fw (p.1.headD 0) := by
  obtain ⟨p, hp, hr⟩ := List.mem_flatMap.mp h
  rcases List.mem_cons.mp hr with rfl | hr
  · exact List.mem_map_of_mem hp
  · rw [storeReports_eq] at hr
    rcases List.mem_append.mp hr with hr | hr
    · exact absurd hk (body_not_finish p.2 hr).2
    · rw [List.mem_singleton.mp hr] at hk
      exact absurd hk.symm key_ne_finish

lemma key_selects (kb : Keyboard) (n : ℕ) (key : Bytes) :
    (arrive fw kb ⟨frame msgKey [key.headD 0], env.write n⟩).current fw =
      selection fw env n (kb.current fw) key := by
  rw [arrive, selection]
  split_ifs <;> rfl

lemma pair_current (kb : Keyboard) (n : ℕ) (p : Bytes × Bytes) :
    (deliver fw kb (stamp env n (pairReports p))).current fw = selection fw env n (kb.current fw) p.1 := by
  rw [← key_selects]
  exact current_after_store _ (n + 1) p.2

lemma pair_stored (kb : Keyboard) {n : ℕ} {p : Bytes × Bytes} {c : UInt16}
    (h : Finished env p.2 (n + 1) → selection fw env n (kb.current fw) p.1 = c →
      keycodeOf fw (p.1.headD 0) = c ∧ 0 ∉ p.2 ∧ Complete fw env p.2 (n + 1)) :
    (deliver fw kb (stamp env n (pairReports p))).stored c = kb.stored c ∨
      keycodeOf fw (p.1.headD 0) = c ∧
        (deliver fw kb (stamp env n (pairReports p))).stored c = some (p.2 ++ [0]) := by
  set w : Written := ⟨frame msgKey [p.1.headD 0], env.write n⟩
  have hkey : ¬ isFinish w := key_ne_finish
  have hselects : (arrive fw kb w).current fw = _ := key_selects kb n p.1
  change (deliver fw (arrive fw kb w) (stamp env (n + 1) (storeReports p.2))).stored c = _ ∨ _ ∧
    (deliver fw (arrive fw kb w) (stamp env (n + 1) (storeReports p.2))).stored c = _
  rw [stored_after_store, arrive_stored hkey]
  split_ifs with hc
  · obtain ⟨hkc, hd, hcomplete⟩ := h hc.1 (hselects.symm.trans hc.2.2.symm)
    have hb := deliver_body_holds fw env (arrive fw kb w) (n + 1) [] hd (Or.inl hcomplete.2.1)
    rw [staged_complete fw [] hcomplete] at hb
    rw [copied_of_holds hb hcomplete.1]
    exact Or.inr ⟨hkc, rfl⟩
  · exact Or.inl rfl

lemma pair_prefix {n : ℕ} {p : Bytes × Bytes} {ws : List Written}
    (h : ws <+: stamp env n (pairReports p)) :
    ws = stamp env n (pairReports p) ∨ ∀ w ∈ ws, ¬ isFinish w := by
  have hsplit : pairReports p =
      (frame msgKey [p.1.headD 0] :: bodyReports p.2) ++ [frame msgFinish []] := rfl
  rw [hsplit, stamp_append] at h ⊢
  rcases List.prefix_concat_iff.mp h with hw | hw
  · exact Or.inl hw
  · right
    intro w hmem
    rcases List.mem_cons.mp (report_of_mem_stamp (hw.subset hmem)) with hr | hr
    · rw [isFinish, hr]
      exact key_ne_finish
    · exact (body_not_finish p.2 hr).1

theorem own_text_run {c : UInt16} {pairs : List (Bytes × Bytes)} (n : ℕ) (kb : Keyboard)
    (h : Sound fw env c n (kb.current fw) pairs) {ws : List Written}
    (hw : ws <+: stamp env n (pairs.flatMap pairReports)) :
    OwnText fw kb pairs (deliver fw kb ws) c := by
  induction pairs generalizing n kb ws with
  | nil =>
    rw [List.prefix_nil.mp hw]
    exact Or.inl rfl
  | cons p pairs ih =>
    obtain ⟨hp, hrest⟩ := h
    have hpair := pair_stored kb hp
    rw [List.flatMap_cons, stamp_append, pairReports_length] at hw
    rcases prefix_append_cases hw with hfirst | ⟨zs, hzs, rfl⟩
    · rcases pair_prefix hfirst with rfl | hnone
      · exact hpair.imp_right fun hc => ⟨p, by simp, hc⟩
      · exact Or.inl (congrFun (deliver_stored hnone) c)
    · rw [← pair_current] at hrest
      rw [deliver_append]
      rcases ih _ (deliver fw kb (stamp env n (pairReports p))) hrest hzs with hc | ⟨q, hq, hc⟩
      · rw [OwnText, hc]
        exact hpair.imp_right fun hc => ⟨p, by simp, hc⟩
      · exact Or.inr ⟨q, List.mem_cons_of_mem _ hq, hc⟩

def KeepsRegisters (fw : Build) (env : Env) (s : Session) (kb : Keyboard)
    (pairs : List (Bytes × Bytes)) : Prop :=
  ∀ t, runCalls env s (pairCalls pairs) = .ok t →
    ∀ ws, ws <+: t.written.drop s.written.length → ∀ c, OwnText fw kb pairs (deliver fw kb ws) c

lemma pairCalls_written (env : Env) (s : Session) (pairs : List (Bytes × Bytes))
    (h : ∀ p ∈ pairs, p.1 ≠ []) : ∃ t, runCalls env s (pairCalls pairs) = .ok t ∧
      t.written.drop s.written.length = stamp env s.written.length (pairs.flatMap pairReports) := by
  have hvalid : ∀ call ∈ pairCalls pairs, call.Valid := by
    intro call hc
    obtain ⟨p, hp, hc⟩ := List.mem_flatMap.mp hc
    simp only [List.mem_cons, List.not_mem_nil, or_false] at hc
    rcases hc with rfl | rfl
    · exact h p hp
    · trivial
  obtain ⟨t, ht, hw, _⟩ := runCalls_written env s hvalid
  exact ⟨t, ht, by rw [hw, List.drop_left, pairCalls_reports]⟩

theorem pairs_keep_registers (fw : Build) (env : Env) (s : Session) (kb : Keyboard)
    (pairs : List (Bytes × Bytes)) (hkeys : ∀ p ∈ pairs, p.1 ≠ []) :
    ∃ t, runCalls env s (pairCalls pairs) = .ok t ∧
      ∀ ws, ws <+: t.written.drop s.written.length → ∀ c,
        (Sound fw env c s.written.length (kb.current fw) pairs →
          OwnText fw kb pairs (deliver fw kb ws) c) ∧
        (Selected (t.written.drop s.written.length) →
          (c ∉ pairs.map fun p => keycodeOf fw (p.1.headD 0)) →
            (deliver fw kb ws).stored c = kb.stored c) := by
  obtain ⟨t, ht, hw⟩ := pairCalls_written env s pairs hkeys
  refine ⟨t, ht, fun ws hws c => ⟨fun hsound => ?_, fun hsel hc => ?_⟩⟩
  · rw [hw] at hws
    exact own_text_run _ kb hsound hws
  · apply (frame_run (hsel.of_prefix hws) _).1 c hc
    intro w hmem hk
    exact key_of_pairReports (report_of_mem_stamp (hw ▸ hws.subset hmem)) hk

theorem lost_key_misdirects :
    -- a lost K, and a lost A
    ¬ KeepsRegisters plainBuild (losing 0) Session.fresh plainKeyboard [([110], [104, 105])] ∧
      ¬ KeepsRegisters plainBuild (losing 2) Session.fresh plainKeyboard
        [([110], List.replicate 32 97)] := by
  constructor
  · intro h
    obtain ⟨t, ht, hw⟩ := pairCalls_written (losing 0) Session.fresh [([110], [104, 105])] (by decide)
    have hc := h t ht _ (List.prefix_refl _) 0
    rw [hw] at hc
    revert hc
    decide +kernel
  · intro h
    obtain ⟨t, ht, hw⟩ := pairCalls_written (losing 2) Session.fresh [([110], List.replicate 32 97)]
      (by decide)
    have hc := h t ht _ (List.prefix_refl _) 110
    rw [hw] at hc
    revert hc
    decide +kernel

-- an A of the first pair is lost, and the register of the second pair does not notice
theorem pairs_keep_registers_one : ∃ t,
    runCalls (losing 2) Session.fresh (pairCalls [([110], List.replicate 32 97), ([98], [104, 105])]) = .ok t ∧
      OwnText plainBuild plainKeyboard [([110], List.replicate 32 97), ([98], [104, 105])]
        (deliver plainBuild plainKeyboard t.written) 98 := by
  obtain ⟨t, ht, hruns⟩ := pairs_keep_registers plainBuild (losing 2) Session.fresh plainKeyboard
    [([110], List.replicate 32 97), ([98], [104, 105])] (by decide)
  refine ⟨t, ht, (hruns _ (List.prefix_refl _) 98).1 ⟨fun _ hc => ?_, fun _ _ => ?_, trivial⟩⟩
  · exact absurd hc (by decide)
  · refine ⟨rfl, by decide, by decide, by decide, fun i hi => ?_⟩
    change 31 * (i + 1) < 2 at hi
    omega

end Pairs

end KbReg.Protocol
