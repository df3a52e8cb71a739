import Mathlib.Data.List.Basic
import Mathlib.Tactic.Ring

namespace KbReg.Pieces

variable {α : Type*}

def piece (w : ℕ) (xs : List α) (i : ℕ) : List α := (xs.drop (w * i)).take w

/-- The last piece is the short one; it is empty when the width divides the length. -/
def pieces (w : ℕ) (xs : List α) : List (List α) :=
  (List.range (xs.length / w + 1)).map (piece w xs)

lemma piece_zero (w : ℕ) (xs : List α) : piece w xs 0 = xs.take w := by simp [piece]

lemma piece_succ (w : ℕ) (xs : List α) (i : ℕ) : piece w xs (i + 1) = piece w (xs.drop w) i := by
  simp only [piece, List.drop_drop]
  congr 2
  ring

lemma piece_length_le (w : ℕ) (xs : List α) (i : ℕ) : (piece w xs i).length ≤ w := by
  simp [piece]

@[simp] lemma pieces_length (w : ℕ) (xs : List α) : (pieces w xs).length = xs.length / w + 1 := by
  simp [pieces]

lemma pieces_short {w : ℕ} {xs : List α} (h : xs.length < w) : pieces w xs = [xs] := by
  simp [pieces, Nat.div_eq_of_lt h, piece, List.take_of_length_le (Nat.le_of_lt h)]

lemma pieces_cut {w : ℕ} (hw : 0 < w) {xs : List α} (h : w ≤ xs.length) :
    pieces w xs = xs.take w :: pieces w (xs.drop w) := by
  have hn : xs.length / w = (xs.drop w).length / w + 1 := by
    rw [List.length_drop, Nat.div_eq_sub_div hw h]
  simp only [pieces, hn]
  rw [List.range_succ_eq_map, List.map_cons, List.map_map, piece_zero]
  exact congrArg _ (List.map_congr_left fun i _ => piece_succ w xs i)

@[elab_as_elim]
theorem cut_induction {P : List α → Prop} {w : ℕ} (hw : 0 < w)
    (short : ∀ xs : List α, xs.length < w → P xs)
    (cut : ∀ xs : List α, w ≤ xs.length → P (xs.drop w) → P xs) (xs : List α) : P xs := by
  induction xs using (measure List.length).wf.induction with
  | h xs ih =>
    by_cases h : xs.length < w
    · exact short xs h
    · apply cut xs (Nat.le_of_not_lt h)
      apply ih
      change (xs.drop w).length < xs.length
      simp only [List.length_drop]
      omega

lemma pieces_head (w : ℕ) (xs : List α) : pieces w xs = xs.take w :: (pieces w xs).tail := by
  rw [pieces, List.range_succ_eq_map, List.map_cons, piece_zero]
  rfl

lemma pieces_getElem (w : ℕ) (xs : List α) {i : ℕ} (h : i ≤ xs.length / w) :
    (pieces w xs)[i]? = some (piece w xs i) := by
  rw [pieces, List.getElem?_map, List.getElem?_range (by omega)]
  rfl

lemma pieces_flatten {w : ℕ} (hw : 0 < w) (xs : List α) : (pieces w xs).flatten = xs := by
  induction xs using cut_induction hw with
  | short xs h => simp [pieces_short h]
  | cut xs h ih => rw [pieces_cut hw h, List.flatten_cons, ih, List.take_append_drop]

lemma mem_of_mem_piece {w : ℕ} {xs p : List α} (hp : p ∈ pieces w xs) {x : α} (hx : x ∈ p) :
    x ∈ xs := by
  obtain ⟨i, _, rfl⟩ := List.mem_map.mp hp
  exact List.mem_of_mem_drop (List.mem_of_mem_take hx)

lemma length_le_of_mem {w : ℕ} {xs p : List α} (hp : p ∈ pieces w xs) : p.length ≤ w := by
  obtain ⟨i, _, rfl⟩ := List.mem_map.mp hp
  exact piece_length_le w xs i

lemma takeWhile_nil_iff (p : α → Bool) (xs : List α) :
    xs.takeWhile p = [] ↔ ∀ x, xs[0]? = some x → p x = false := by
  cases xs with
  | nil => simp
  | cons y ys => cases h : p y <;> simp [h]

lemma prefixes_nil_iff (p : α → Bool) {w : ℕ} (hw : 0 < w) (xs : List α) :
    ((pieces w xs).map (List.takeWhile p)).flatten = [] ↔
      ∀ i x, xs[w * i]? = some x → p x = false := by
  have hpiece (i : ℕ) : (piece w xs i)[0]? = xs[w * i]? := by
    rw [piece, List.getElem?_take_of_lt hw, List.getElem?_drop, Nat.add_zero]
  rw [List.flatten_eq_nil_iff]
  constructor
  · intro h i x hx
    have hlt : w * i < xs.length := (List.getElem?_eq_some_iff.mp hx).1
    have hle : i ≤ xs.length / w := by
      rw [Nat.le_div_iff_mul_le hw, Nat.mul_comm]
      exact hlt.le
    have hmem : piece w xs i ∈ pieces w xs := List.mem_of_getElem? (pieces_getElem w xs hle)
    rw [← hpiece] at hx
    exact (takeWhile_nil_iff p _).mp (h _ (List.mem_map_of_mem hmem)) x hx
  · intro h l hl
    obtain ⟨q, hq, rfl⟩ := List.mem_map.mp hl
    obtain ⟨i, _, rfl⟩ := List.mem_map.mp hq
    rw [takeWhile_nil_iff]
    intro x hx
    rw [hpiece] at hx
    exact h i x hx

lemma behind_iff {w n : ℕ} {xs : List α} (P : α → Prop) (later : ℕ → Prop)
    (hlater : ∀ i, n < w * (i + 1) ↔ later i) :
    (∀ i x, n < w * i → xs[w * i]? = some x → P x) ↔
      ∀ i x, later i → (xs.drop w)[w * i]? = some x → P x := by
  have hnext (i : ℕ) : xs[w * (i + 1)]? = (xs.drop w)[w * i]? := by
    rw [List.getElem?_drop, Nat.mul_succ, Nat.add_comm]
  constructor
  · intro h i x hi hx
    rw [← hnext] at hx
    exact h (i + 1) x ((hlater i).mpr hi) hx
  · intro h i x hi hx
    cases i with
    | zero => omega
    | succ i =>
      rw [hnext] at hx
      exact h i x ((hlater i).mp hi) hx

theorem prefixes_flatten_iff (p : α → Bool) {w : ℕ} (hw : 0 < w) (xs : List α) :
    ((pieces w xs).map (List.takeWhile p)).flatten = xs.takeWhile p ↔
      ∀ i x, (xs.takeWhile p).length < w * i → xs[w * i]? = some x → p x = false := by
  induction xs using cut_induction hw with
  | short xs h =>
    refine iff_of_true (by simp [pieces_short h]) ?_
    intro i x hlt hx
    have hi : w * i < w := Nat.lt_trans (List.getElem?_eq_some_iff.mp hx).1 h
    have hzero : i = 0 := by
      by_contra hne
      exact absurd (Nat.le_mul_of_pos_right w (Nat.pos_of_ne_zero hne)) (Nat.not_le.mpr hi)
    simp [hzero] at hlt
  | cut xs h ih =>
    have hlen : (xs.take w).length = w := by simp [h]
    have hsplit : xs.takeWhile p = if ((xs.take w).takeWhile p).length = w then
        xs.take w ++ (xs.drop w).takeWhile p else (xs.take w).takeWhile p := by
      conv_lhs => rw [← List.take_append_drop w xs, List.takeWhile_append, hlen]
    rw [pieces_cut hw h, List.map_cons, List.flatten_cons]
    by_cases hall : ((xs.take w).takeWhile p).length = w
    · have hfull : (xs.take w).takeWhile p = xs.take w :=
        (List.takeWhile_prefix p).eq_of_length (hall.trans hlen.symm)
      rw [if_pos hall] at hsplit
      have hlater (i : ℕ) : w + ((xs.drop w).takeWhile p).length < w * (i + 1) ↔
          ((xs.drop w).takeWhile p).length < w * i := by
        rw [Nat.mul_succ]
        omega
      rw [hsplit, hfull, List.append_cancel_left_eq, ih, List.length_append, hlen, behind_iff _ _ hlater]
    · have hle : ((xs.take w).takeWhile p).length ≤ w :=
        (List.takeWhile_prefix p).length_le.trans hlen.le
      have hlater (i : ℕ) : ((xs.take w).takeWhile p).length < w * (i + 1) ↔ True := by
        rw [Nat.mul_succ, iff_true]
        omega
      rw [if_neg hall] at hsplit
      rw [hsplit, List.append_right_eq_self, prefixes_nil_iff p hw, behind_iff _ _ hlater]
      simp only [forall_const]

end KbReg.Pieces
