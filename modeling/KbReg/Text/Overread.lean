import KbReg.Text.Utf8
import Mathlib.Data.List.GetD
import Mathlib.Tactic.IntervalCases

/-! `u8dec` on the memory of its string: which bytes it reads, and what it makes of them. -/

namespace KbReg.Text

open KbReg.Host

structure Holds (mem : ℕ → UInt8) (s : Bytes) : Prop where
  bytes : ∀ i b, s[i]? = some b → mem i = b
  terminator : mem s.length = 0

section Memory

variable (mem : ℕ → UInt8)

def nextAt (it : ℕ) : UInt32 × ℕ :=
  let cp := mask8 (mem it)
  match sequenceLength (mem it) with
  | 2 => (((cp <<< 6) &&& 0x7ff) + (mask8 (mem (it + 1)) &&& 0x3f), it + 2)
  | 3 =>
    let cp := ((cp <<< 12) &&& 0xffff) + ((mask8 (mem (it + 1)) <<< (6 : UInt32)) &&& 0xfff)
    (cp + (mask8 (mem (it + 2)) &&& 0x3f), it + 3)
  | 4 =>
    let cp := ((cp <<< 18) &&& 0x1fffff) + ((mask8 (mem (it + 1)) <<< (12 : UInt32)) &&& 0x3ffff)
    let cp := cp + ((mask8 (mem (it + 2)) <<< (6 : UInt32)) &&& 0xfff)
    (cp + (mask8 (mem (it + 3)) &&& 0x3f), it + 4)
  | _ => (cp, it + 1)

def span (lead : UInt8) : ℕ := max 1 (sequenceLength lead)

lemma sequenceLength_le (lead : UInt8) : sequenceLength lead ≤ 4 := by
  rw [sequenceLength]
  split_ifs <;> omega

lemma span_other {lead : UInt8} (h₂ : sequenceLength lead ≠ 2) (h₃ : sequenceLength lead ≠ 3)
    (h₄ : sequenceLength lead ≠ 4) : span lead = 1 := by
  have hle := sequenceLength_le lead
  rw [span]
  omega

lemma nextAt_address (it : ℕ) : (nextAt mem it).2 = it + span (mem it) := by
  rw [nextAt]
  split
  · next h => rw [span, h]; rfl
  · next h => rw [span, h]; rfl
  · next h => rw [span, h]; rfl
  · next h₂ h₃ h₄ => rw [span_other h₂ h₃ h₄]

def utf8to16At (last start : ℕ) : List UInt32 × List ℕ :=
  if start < last then
    let rest := utf8to16At last (nextAt mem start).2
    (units (nextAt mem start).1 ++ rest.1, List.range' start (span (mem start)) ++ rest.2)
  else ([], [])
termination_by last - start
decreasing_by
  rw [nextAt_address, span]
  omega

end Memory

inductive Whole : Bytes → Prop
  | nil : Whole []
  | cons {lead : UInt8} {trails rest : Bytes} : trails.length + 1 = span lead → Whole rest →
      Whole (lead :: trails ++ rest)

def Cut (s : Bytes) : Prop :=
  ∃ pre lead trails, s = pre ++ lead :: trails ∧ Whole pre ∧ trails.length + 2 < sequenceLength lead

variable {mem : ℕ → UInt8} {s rest : Bytes} {lead : UInt8} {i : ℕ}

lemma next_rest (lead : UInt8) (rest : Bytes) : (next lead rest).2 = rest.drop (span lead - 1) := by
  rw [next]
  split
  · next h => rw [span, h]; rfl
  · next h => rw [span, h]; rfl
  · next h => rw [span, h]; rfl
  · next h₂ h₃ h₄ => rw [span_other h₂ h₃ h₄]; rfl

lemma Holds.first (h : Holds mem s) (hs : s.drop i = lead :: rest) : mem i = lead := by
  apply h.bytes
  have hget := congrArg (·[0]?) hs
  simpa using hget

lemma Holds.trail (h : Holds mem s) (hs : s.drop i = lead :: rest) {k : ℕ} (hk : k ≤ rest.length) :
    mem (i + (k + 1)) = rest.getD k 0 := by
  have hlen := congrArg List.length hs
  rw [List.length_drop, List.length_cons] at hlen
  rcases hk.lt_or_eq with hlt | rfl
  · apply h.bytes
    have hget := congrArg (·[k + 1]?) hs
    simpa [List.getD, hlt] using hget
  · have hend : i + (rest.length + 1) = s.length := by omega
    rw [hend, h.terminator, List.getD_eq_default _ _ le_rfl]

lemma nextAt_next (h : Holds mem s) (hs : s.drop i = lead :: rest) (hspan : span lead ≤ rest.length + 2) :
    (nextAt mem i).1 = (next lead rest).1 := by
  have htrail {k : ℕ} (hk : k + 2 ≤ sequenceLength lead) : mem (i + (k + 1)) = rest.getD k 0 :=
    h.trail hs (by rw [span] at hspan; omega)
  rw [nextAt, next, h.first hs]
  generalize hlen : sequenceLength lead = n at htrail
  have hle : n ≤ 4 := hlen ▸ sequenceLength_le lead
  interval_cases n
  · rfl
  · rfl
  · rw [htrail (k := 0) (by omega)]
    rfl
  · rw [htrail (k := 0) (by omega), htrail (k := 1) (by omega)]
    rfl
  · rw [htrail (k := 0) (by omega), htrail (k := 1) (by omega), htrail (k := 2) (by omega)]
    rfl

lemma not_cut_nil : ¬ Cut [] := by
  rintro ⟨pre, lead, trails, h, -⟩
  cases pre <;> cases h

lemma cut_whole_iff (hwhole : span lead ≤ rest.length + 1) :
    Cut (lead :: rest) ↔ Cut (rest.drop (span lead - 1)) := by
  have hspan : 0 < span lead := lt_of_lt_of_le Nat.zero_lt_one (le_max_left _ _)
  constructor
  · rintro ⟨pre, last, trails, heq, hpre, hcut⟩
    cases hpre with
    | nil =>
      obtain ⟨rfl, rfl⟩ := List.cons.inj heq
      rw [span] at hwhole
      omega
    | @cons first firstTrails later htrails hpre =>
      obtain ⟨rfl, hrest⟩ := List.cons.inj heq
      have hsplit : rest = firstTrails ++ (later ++ last :: trails) := hrest.trans (List.append_assoc _ _ _)
      refine ⟨later, last, trails, ?_, hpre, hcut⟩
      rw [← htrails, Nat.add_sub_cancel, hsplit, List.drop_left]
  · rintro ⟨pre, last, trails, heq, hpre, hcut⟩
    refine ⟨lead :: rest.take (span lead - 1) ++ pre, last, trails, ?_, .cons ?_ hpre, hcut⟩
    · rw [List.append_assoc, ← heq, List.cons_append, List.take_append_drop]
    · rw [List.length_take]
      omega

lemma cut_last_iff (hlast : rest.length + 1 < span lead) :
    Cut (lead :: rest) ↔ rest.length + 2 < sequenceLength lead := by
  constructor
  · rintro ⟨pre, last, trails, heq, hpre, hcut⟩
    cases hpre with
    | nil =>
      obtain ⟨rfl, rfl⟩ := List.cons.inj heq
      exact hcut
    | @cons first firstTrails later htrails hpre =>
      obtain ⟨rfl, hrest⟩ := List.cons.inj heq
      have hsplit : rest = firstTrails ++ (later ++ last :: trails) := hrest.trans (List.append_assoc _ _ _)
      rw [hsplit, List.length_append] at hlast
      omega
  · intro hcut
    exact ⟨[], lead, rest, rfl, .nil, hcut⟩

lemma utf8to16At_reads (h : Holds mem s) (n i : ℕ) (hn : s.length - i ≤ n) (hi : i ≤ s.length) :
    ((∀ j ∈ (utf8to16At mem s.length i).2, j ≤ s.length) ↔ ¬ Cut (s.drop i)) ∧
      (¬ Cut (s.drop i) → (utf8to16At mem s.length i).1 = utf8to16 (s.drop i)) := by
  induction n generalizing i with
  | zero =>
    have hend : s.drop i = [] := List.drop_eq_nil_of_le (by omega)
    rw [utf8to16At, if_neg (by omega), hend, utf8to16]
    simp [not_cut_nil]
  | succ n ih =>
    cases hs : s.drop i with
    | nil =>
      have hle : s.length ≤ i := List.drop_eq_nil_iff.mp hs
      rw [utf8to16At, if_neg (not_lt.mpr hle), utf8to16]
      simp [not_cut_nil]
    | cons lead rest =>
      have hlen := congrArg List.length hs
      rw [List.length_drop, List.length_cons] at hlen
      have hspan : 0 < span lead := lt_of_lt_of_le Nat.zero_lt_one (le_max_left _ _)
      rw [utf8to16At, if_pos (by omega), nextAt_address, h.first hs, utf8to16, next_rest]
      have hreads : (∀ j ∈ List.range' i (span lead), j ≤ s.length) ↔ span lead ≤ rest.length + 2 := by
        constructor
        · intro hall
          have hlast := hall (i + (span lead - 1)) (List.mem_range'_1.mpr (by omega))
          omega
        · intro hroom j hj
          have hj' := List.mem_range'_1.mp hj
          omega
      simp only [List.forall_mem_append, hreads]
      by_cases hwhole : span lead ≤ rest.length + 1
      · have hdrop : s.drop (i + span lead) = rest.drop (span lead - 1) := by
          rw [← List.drop_drop, hs, List.drop_cons hspan]
        obtain ⟨hsafe, hsame⟩ := ih (i + span lead) (by omega) (by omega)
        rw [hdrop] at hsafe hsame
        rw [hsafe, cut_whole_iff hwhole]
        refine ⟨and_iff_right (by omega), fun hcut => ?_⟩
        rw [hsame hcut, nextAt_next h hs (by omega)]
      · have hend : rest.drop (span lead - 1) = [] := List.drop_eq_nil_of_le (by omega)
        rw [utf8to16At, if_neg (by omega), cut_last_iff (by omega), hend, utf8to16]
        have hlead : span lead = sequenceLength lead := by
          rw [span] at hwhole ⊢
          omega
        rw [hlead, not_lt]
        refine ⟨and_iff_left fun j hj => absurd hj List.not_mem_nil, fun hroom => ?_⟩
        rw [nextAt_next h hs (by omega)]

theorem u8dec_in_bounds_iff (s : Bytes) (mem : ℕ → UInt8) (h : Holds mem s) :
    ((∀ j ∈ (utf8to16At mem s.length 0).2, j ≤ s.length) ↔ ¬ Cut s) ∧
      (¬ Cut s → (utf8to16At mem s.length 0).1 = u8dec s) :=
  utf8to16At_reads h s.length 0 le_rfl (Nat.zero_le _)

def loneLead (i : ℕ) : UInt8 := if i = 0 then 0xF0 else 0

theorem u8dec_in_bounds_lone : ¬ ∀ j ∈ (utf8to16At loneLead 1 0).2, j ≤ 1 := by
  have hholds : Holds loneLead [0xF0] := by
    refine ⟨fun i b hb => ?_, rfl⟩
    obtain ⟨hi, rfl⟩ := List.getElem?_eq_some_iff.mp hb
    obtain rfl : i = 0 := Nat.lt_one_iff.mp hi
    rfl
  intro hbounds
  exact (u8dec_in_bounds_iff [0xF0] loneLead hholds).1.mp hbounds ⟨[], 0xF0, [], rfl, .nil, by decide⟩

end KbReg.Text
