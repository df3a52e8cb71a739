import Mathlib.Data.List.Basic

namespace KbReg.Escaping

variable {α : Type*} [DecidableEq α] (e : α)

def quote (xs : List α) : List α := xs.flatMap fun x => if x = e then [e, e] else [x]

def unquote : List α → Option (List α)
  | [] => some []
  | [x] => if x = e then none else some [x]
  | x :: y :: xs => if x = e then (unquote xs).map (y :: ·) else (unquote (y :: xs)).map (x :: ·)

lemma unquote_escaped (y : α) (xs : List α) : unquote e (e :: y :: xs) = (unquote e xs).map (y :: ·) := by
  rw [unquote, if_pos rfl]

lemma unquote_plain {x : α} (h : x ≠ e) (xs : List α) :
    unquote e (x :: xs) = (unquote e xs).map (x :: ·) := by
  cases xs with
  | nil => simp [unquote, h]
  | cons y ys => simp [unquote, h]

theorem unquote_quote (xs : List α) : unquote e (quote e xs) = some xs := by
  induction xs with
  | nil => rfl
  | cons x xs ih =>
    rw [quote, List.flatMap_cons]
    by_cases h : x = e
    · subst h
      rw [if_pos rfl, List.cons_append, List.singleton_append, unquote_escaped]
      exact congrArg _ ih
    · rw [if_neg h, List.singleton_append, unquote_plain e h]
      exact congrArg _ ih

theorem quote_injective : Function.Injective (quote e) := by
  intro xs ys h
  have hread := congrArg (unquote e) h
  rw [unquote_quote, unquote_quote] at hread
  exact Option.some.inj hread

lemma quote_length (xs : List α) : (quote e xs).length = xs.length + xs.count e := by
  induction xs with
  | nil => rfl
  | cons x xs ih =>
    rw [quote, List.flatMap_cons, List.length_append, ← quote, ih, List.length_cons]
    by_cases h : x = e
    · subst h
      rw [if_pos rfl, List.count_cons_self]
      simp only [List.length_cons, List.length_nil]
      omega
    · rw [if_neg h, List.count_cons_of_ne h]
      simp only [List.length_cons, List.length_nil]
      omega

lemma mem_of_mem_quote {x : α} {xs : List α} (h : x ∈ quote e xs) : x ∈ xs := by
  obtain ⟨y, hy, hx⟩ := List.mem_flatMap.mp h
  by_cases he : y = e
  · subst he
    rw [if_pos rfl] at hx
    obtain rfl : x = y := by simpa using hx
    exact hy
  · rw [if_neg he, List.mem_singleton] at hx
    rw [hx]
    exact hy

end KbReg.Escaping
