import KbReg.Cli.Main
import KbReg.Host.Polling
import Mathlib.Algebra.Order.BigOperators.Group.Finset
import Mathlib.Order.Interval.Finset.Nat

namespace KbReg.Cli

open KbReg.Host

variable {hid : Hid} {env : Env} {s t : Session} {opts : Options}

lemma main_sends {status : ℤ} (h : main hid env s opts = .ok (status, t)) :
    t.checks = s.checks ∨ t = sendAll env (announce s opts) (mainBuffers opts) := by
  by_cases hhelp : opts.help = true
  · rw [main, if_pos hhelp] at h
    obtain rfl := (Prod.mk.inj (Except.ok.inj h)).2
    exact Or.inl rfl
  by_cases hinit : hid.init = 0
  · cases hdev : openRaw hid opts.vendorId opts.productId with
    | none =>
      simp only [main, if_neg hhelp, if_neg (not_not.mpr hinit), hdev] at h
      obtain rfl := (Prod.mk.inj (Except.ok.inj h)).2
      exact Or.inl rfl
    | some dev =>
      have hhelp' : opts.help = false := Bool.eq_false_iff.mpr hhelp
      by_cases hname : hid.manufacturer dev = none ∨ hid.product dev = none
      · rw [main_stops hinit hhelp' hdev hname] at h
        cases h
      · rw [main_runs hid env opts hinit hhelp' hdev hname] at h
        exact Or.inr (Prod.mk.inj (Except.ok.inj h)).2.symm
  · simp only [main, if_neg hhelp, if_pos hinit] at h
    obtain rfl := (Prod.mk.inj (Except.ok.inj h)).2
    exact Or.inl rfl

theorem main_ends (hid : Hid) (peer : Peer) (s : Session) (opts : Options) (status : ℤ) (t : Session)
    (h : main hid peer.env s opts = .ok (status, t)) :
    (∀ i, ∃ n ≤ 27, (peer.polling i).Returned n ∧ ∀ m < n, ¬ (peer.polling i).Returned m) ∧
      ∑ i ∈ Finset.Ico s.checks t.checks, (peer.polling i).count ≤ 27 * (opts.data.length / 31 + 3) := by
  refine ⟨fun i => ⟨_, (peer.polling i).count_le, Nat.find_spec (peer.polling i).ends,
    fun m hm => Nat.find_min (peer.polling i).ends hm⟩, ?_⟩
  have hchecks : t.checks - s.checks ≤ opts.data.length / 31 + 3 := by
    rcases main_sends h with hnone | rfl
    · omega
    · have hkey : (keyReports opts).length ≤ 1 := by
        rw [keyReports]
        split_ifs
        · exact le_refl 1
        · exact zero_le_one
      rw [sends_checks, List.length_append, storeReports_length]
      omega
  calc ∑ i ∈ Finset.Ico s.checks t.checks, (peer.polling i).count
      ≤ (Finset.Ico s.checks t.checks).card • 27 :=
        Finset.sum_le_card_nsmul _ _ _ fun i _ => (peer.polling i).count_le
    _ = 27 * (t.checks - s.checks) := by rw [Nat.card_Ico, Nat.nsmul_eq_mul, Nat.mul_comm]
    _ ≤ 27 * (opts.data.length / 31 + 3) := Nat.mul_le_mul_left 27 hchecks

def silence : Polling := ⟨0, fun n => ⟨.bytes [], n * pause⟩, le_refl 0, fun n => (Nat.succ_mul n pause).ge⟩

def silent : Peer := ⟨fun _ => 33, fun _ => "", fun _ => silence⟩

theorem main_ends_silent : ∃ t, main slice65 silent.env Session.fresh greeting = .ok (0, t) ∧
    ∑ i ∈ Finset.Ico 0 t.checks, (silent.polling i).count ≤ 81 := by
  have hrun := main_runs slice65 silent.env greeting rfl rfl
    (show openRaw slice65 _ _ = some 1 from rfl) (by decide) Session.fresh
  exact ⟨_, hrun, (main_ends slice65 silent Session.fresh greeting 0 _ hrun).2⟩

end KbReg.Cli
