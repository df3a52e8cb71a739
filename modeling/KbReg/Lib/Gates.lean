import Mathlib.Data.List.Basic
import Mathlib.Data.List.Infix

/-! Keys that are pressed and released while one of them, the gate, keeps the strokes of the others from
getting through as long as it is down. -/

namespace KbReg.Gates

structure Stroke (K : Type*) where
  key : K
  pressed : Bool
  deriving DecidableEq

variable {K : Type*} [DecidableEq K] (gate k : K)

def down (b : Bool) (ss : List (Stroke K)) : Bool :=
  ss.foldl (fun b s => if s.key = k then s.pressed else b) b

def through : Bool → List (Stroke K) → List (Stroke K)
  | _, [] => []
  | b, s :: ss =>
    if s.key = gate then through s.pressed ss else if b then through b ss else s :: through b ss

def Alternates : Bool → List (Stroke K) → Prop
  | _, [] => True
  | b, s :: ss =>
    if s.key = k then s.pressed ≠ b ∧ Alternates s.pressed ss else Alternates b ss

instance decidableAlternates : ∀ (b : Bool) (ss : List (Stroke K)), Decidable (Alternates k b ss)
  | _, [] => inferInstanceAs (Decidable True)
  | b, s :: ss =>
    have := decidableAlternates s.pressed ss
    have := decidableAlternates b ss
    inferInstanceAs (Decidable (if s.key = k then s.pressed ≠ b ∧ _ else _))

def Stuck (ss : List (Stroke K)) : Prop :=
  down k false ss = false ∧ down k false (through gate false ss) = true

def Straddles (ss : List (Stroke K)) : Prop :=
  ∃ before mid after, ss = before ++ ⟨k, true⟩ :: mid ++ ⟨k, false⟩ :: after ∧ (∀ s ∈ mid, s.key ≠ k) ∧
    down gate false before = false ∧ down gate false mid = true

variable {gate k} {b : Bool} {s : Stroke K} {ss ts : List (Stroke K)}

lemma down_cons : down k b (s :: ss) = down k (if s.key = k then s.pressed else b) ss := rfl

lemma down_append : down k b (ss ++ ts) = down k (down k b ss) ts := List.foldl_append

lemma down_concat : down k b (ss ++ [s]) = if s.key = k then s.pressed else down k b ss := by
  rw [down_append]
  rfl

lemma down_of_notMem (h : ∀ s ∈ ss, s.key ≠ k) : down k b ss = b := by
  induction ss with
  | nil => rfl
  | cons s ss ih =>
    obtain ⟨hs, hss⟩ := List.forall_mem_cons.mp h
    rw [down_cons, if_neg hs, ih hss]

lemma through_append : through gate b (ss ++ ts) =
    through gate b ss ++ through gate (down gate b ss) ts := by
  induction ss generalizing b with
  | nil => rfl
  | cons s ss ih =>
    rw [List.cons_append, through, through, ih, ih]
    by_cases hs : s.key = gate
    · rw [if_pos hs, if_pos hs, down_cons, if_pos hs]
    · rw [if_neg hs, if_neg hs, down_cons, if_neg hs]
      split_ifs <;> rfl

lemma through_singleton : through gate b [s] = if s.key = gate ∨ b = true then [] else [s] := by
  by_cases hs : s.key = gate
  · rw [through, if_pos hs, if_pos (Or.inl hs), through]
  · simp only [through, hs, if_false, false_or]

lemma through_concat : through gate b (ss ++ [s]) =
    through gate b ss ++ if s.key = gate ∨ down gate b ss = true then [] else [s] := by
  rw [through_append, through_singleton]

lemma through_closed (h : ∀ s ∈ ss, s.key ≠ gate) : through gate true ss = [] := by
  induction ss with
  | nil => rfl
  | cons s ss ih =>
    obtain ⟨hs, hss⟩ := List.forall_mem_cons.mp h
    rw [through, if_neg hs, if_pos rfl, ih hss]

lemma mem_through (h : s ∈ through gate b ss) : s ∈ ss := by
  induction ss generalizing b with
  | nil => cases h
  | cons t ss ih =>
    rw [through] at h
    split_ifs at h
    · exact List.mem_cons_of_mem _ (ih h)
    · exact List.mem_cons_of_mem _ (ih h)
    · exact List.mem_cons.mpr ((List.mem_cons.mp h).imp_right ih)

lemma alternates_append :
    Alternates k b (ss ++ ts) ↔ Alternates k b ss ∧ Alternates k (down k b ss) ts := by
  induction ss generalizing b with
  | nil => exact ⟨fun h => ⟨trivial, h⟩, And.right⟩
  | cons s ss ih =>
    rw [List.cons_append, Alternates, Alternates, ih, ih, down_cons]
    by_cases hs : s.key = k
    · rw [if_pos hs, if_pos hs, if_pos hs, and_assoc]
    · rw [if_neg hs, if_neg hs, if_neg hs]

lemma alternates_cons_self {pressed : Bool} (h : Alternates k b (⟨k, pressed⟩ :: ss)) : b = !pressed := by
  rw [Alternates, if_pos rfl] at h
  exact Bool.eq_not.mpr h.1.symm

lemma exists_press (h : down k false ss = true) :
    ∃ before mid, ss = before ++ ⟨k, true⟩ :: mid ∧ ∀ s ∈ mid, s.key ≠ k := by
  induction ss using List.reverseRecOn with
  | nil => cases h
  | append_singleton ss s ih =>
    rw [down_concat] at h
    by_cases hs : s.key = k
    · rw [if_pos hs] at h
      obtain ⟨key, pressed⟩ := s
      obtain rfl : key = k := hs
      obtain rfl : pressed = true := h
      exact ⟨ss, [], rfl, by simp⟩
    · rw [if_neg hs] at h
      obtain ⟨before, mid, rfl, hmid⟩ := ih h
      refine ⟨before, mid ++ [s], by simp, ?_⟩
      simpa [or_imp, forall_and, hs] using hmid

lemma Straddles.append (h : Straddles gate k ss) (ts : List (Stroke K)) : Straddles gate k (ss ++ ts) := by
  obtain ⟨before, mid, after, rfl, hrest⟩ := h
  exact ⟨before, mid, after ++ ts, by simp, hrest⟩

lemma stuck_of_straddling (hk : k ≠ gate) {before mid : List (Stroke K)} (hmid : ∀ s ∈ mid, s.key ≠ k)
    (hopen : down gate false before = false) (hclosed : down gate false mid = true) :
    Stuck gate k (before ++ ⟨k, true⟩ :: mid ++ [⟨k, false⟩]) := by
  have hgate : down gate false (before ++ ⟨k, true⟩ :: mid) = true := by
    rw [down_append, hopen, down_cons, if_neg hk, hclosed]
  have hpassed : down k false (through gate false (before ++ ⟨k, true⟩ :: mid)) = true := by
    rw [List.append_cons, through_append, through_concat, hopen, if_neg (by simp [hk]), down_append,
      down_of_notMem fun s hs => hmid s (mem_through hs), down_concat, if_pos rfl]
  refine ⟨?_, ?_⟩
  · rw [down_concat, if_pos rfl]
  · rw [through_concat, if_pos (Or.inr hgate), List.append_nil, hpassed]

lemma straddles_of_stuck (hk : k ≠ gate) (halt : Alternates k false ss) {p : List (Stroke K)}
    (hp : p <+: ss) (h : Stuck gate k p) : Straddles gate k p := by
  -- for all that came before at once: the press that a stuck key has got through may lie far back
  induction ss using List.reverseRecOn generalizing p with
  | nil =>
    obtain rfl := List.prefix_nil.mp hp
    cases h.2
  | append_singleton ss s ih =>
    obtain ⟨hss, hs⟩ := alternates_append.mp halt
    rcases List.prefix_concat_iff.mp hp with rfl | hp
    · obtain ⟨hup, hpassed⟩ := h
      rw [down_concat] at hup
      rw [through_concat] at hpassed
      by_cases hkey : s.key = k
      · obtain ⟨key, pressed⟩ := s
        obtain rfl : key = k := hkey
        rw [if_pos rfl] at hup
        obtain rfl : pressed = false := hup
        have hdown : down key false ss = true := alternates_cons_self hs
        by_cases hgate : down gate false ss = true
        · rw [if_pos (Or.inr hgate), List.append_nil] at hpassed
          obtain ⟨before, mid, rfl, hmid⟩ := exists_press hdown
          obtain ⟨-, hpress⟩ := alternates_append.mp hss
          have hbefore : down key false before = false := alternates_cons_self hpress
          by_cases hopen : down gate false before = true
          · -- neither this press nor its release got through, so the key was stuck before
            rw [List.append_cons, through_append, through_concat, if_pos (Or.inr hopen), List.append_nil,
              down_append, down_of_notMem fun s hs => hmid s (mem_through hs)] at hpassed
            have hearlier := ih hss (List.prefix_append _ _) ⟨hbefore, hpassed⟩
            rw [List.append_assoc]
            exact hearlier.append _
          · have hopen' : down gate false before = false := Bool.eq_false_iff.mpr hopen
            refine ⟨before, mid, [], rfl, hmid, hopen', ?_⟩
            rwa [down_append, hopen', down_cons, if_neg hk] at hgate
        · rw [if_neg (by simp [hk, hgate]), down_concat, if_pos rfl] at hpassed
          cases hpassed
      · rw [if_neg hkey] at hup
        have hstill : down k false (through gate false ss) = true := by
          rw [← hpassed, down_append]
          split_ifs
          · rfl
          · exact (if_neg hkey).symm
        exact (ih hss List.prefix_rfl ⟨hup, hstill⟩).append _
    · exact ih hss hp h

theorem stuck_iff_straddles (hk : k ≠ gate) (halt : Alternates k false ss) :
    (∃ p, p <+: ss ∧ Stuck gate k p) ↔ Straddles gate k ss := by
  constructor
  · rintro ⟨p, ⟨rest, rfl⟩, hstuck⟩
    exact (straddles_of_stuck hk halt (List.prefix_append _ _) hstuck).append rest
  · rintro ⟨before, mid, after, rfl, hmid, hopen, hclosed⟩
    refine ⟨_, ?_, stuck_of_straddling hk hmid hopen hclosed⟩
    rw [List.append_cons _ _ after]
    exact List.prefix_append _ _

end KbReg.Gates
