import Mathlib.Data.List.Nodup
import Mathlib.Logic.Function.Basic

/-! Singly linked lists in a memory of cells, and the loops that walk along them. -/

namespace KbReg.Linked

variable {A V : Type*}

inductive Chain (cell : A → Option (V × Option A)) : Option A → List (A × V) → Prop
  | nil : Chain cell none []
  | cons {a : A} {v : V} {next : Option A} {l : List (A × V)} (h : cell a = some (v, next))
      (rest : Chain cell next l) : Chain cell (some a) ((a, v) :: l)

variable {cell : A → Option (V × Option A)} {p : Option A} {l m : List (A × V)}

lemma Chain.unique (h : Chain cell p l) (h' : Chain cell p m) : l = m := by
  induction h generalizing m with
  | nil =>
    cases h'
    rfl
  | cons ha rest ih =>
    cases h' with
    | cons ha' rest' =>
      rw [ha] at ha'
      cases ha'
      rw [ih rest']

lemma Chain.split (h : Chain cell p (l ++ m)) : ∃ q, Chain cell q m := by
  induction l generalizing p with
  | nil => exact ⟨p, h⟩
  | cons c l ih =>
    cases h with
    | cons _ rest => exact ih rest

lemma Chain.cell_eq {a : A} {v : V} (h : Chain cell p (l ++ (a, v) :: m)) :
    ∃ next, cell a = some (v, next) ∧ Chain cell next m := by
  obtain ⟨q, hq⟩ := h.split
  cases hq with
  | cons ha rest => exact ⟨_, ha, rest⟩

/-- A cell that came back later in the chain would start the same chain twice, once shorter. -/
theorem Chain.nodup (h : Chain cell p l) : (l.map Prod.fst).Nodup := by
  induction h with
  | nil => exact List.nodup_nil
  | @cons a v next l ha rest ih =>
    rw [List.map_cons, List.nodup_cons]
    refine ⟨?_, ih⟩
    intro hm
    obtain ⟨⟨b, w⟩, hb, rfl⟩ := List.mem_map.mp hm
    obtain ⟨l₁, l₂, rfl⟩ := List.append_of_mem hb
    obtain ⟨q, hq, htail⟩ := rest.cell_eq
    have hback := (Chain.cons hq htail).unique (Chain.cons ha rest)
    have hlen := congrArg List.length hback
    simp only [List.length_cons, List.length_append] at hlen
    omega

section Search

variable (cell) (test : V → Bool)

/-- `while (r != NULL) { if (test) return r; r = r->next; }`, with `none` where a pointer leads to no
cell or the walk has not ended after `n` cells. -/
def search : ℕ → Option A → Option (Option A)
  | _, none => some none
  | 0, some _ => none
  | n + 1, some a => (cell a).bind fun c => if test c.1 then some (some a) else search n c.2

/-- `while (cur != NULL) { prev = cur; cur = cur->next; }` -/
def lastCell : ℕ → A → Option A → Option A
  | _, prev, none => some prev
  | 0, _, some _ => none
  | n + 1, _, some cur => (cell cur).bind fun c => lastCell n cur c.2

variable {cell}

theorem search_eq (h : Chain cell p l) {n : ℕ} (hn : l.length ≤ n) :
    search cell test n p = some ((l.find? fun c => test c.2).map Prod.fst) := by
  induction h generalizing n with
  | nil => cases n <;> rfl
  | @cons a v next l ha rest ih =>
    obtain ⟨n, rfl⟩ : ∃ k, n = k + 1 := ⟨n - 1, by simp only [List.length_cons] at hn; omega⟩
    have hih := ih (by simpa using hn)
    by_cases ht : test v <;> simp [search, ha, ht, hih]

theorem lastCell_eq (h : Chain cell p l) {n : ℕ} (hn : l.length ≤ n) (prev : A) :
    lastCell cell n prev p = some (((l.map Prod.fst).getLast?).getD prev) := by
  induction h generalizing n prev with
  | nil => cases n <;> rfl
  | @cons a v next l ha rest ih =>
    obtain ⟨n, rfl⟩ : ∃ k, n = k + 1 := ⟨n - 1, by simp only [List.length_cons] at hn; omega⟩
    simp only [lastCell, ha, Option.bind_some]
    rw [ih (by simpa using hn) a, List.map_cons, List.getLast?_cons, Option.getD_some]

end Search

section Update

variable [DecidableEq A] {a : A}

theorem Chain.update (h : Chain cell p l) (ha : a ∉ l.map Prod.fst) (c : Option (V × Option A)) :
    Chain (Function.update cell a c) p l := by
  induction h with
  | nil => exact .nil
  | @cons b v next l hb rest ih =>
    rw [List.map_cons, List.mem_cons, not_or] at ha
    refine .cons ?_ (ih ha.2)
    rw [Function.update_of_ne (Ne.symm ha.1), hb]

theorem Chain.relabel {v : V} {next : Option A} (h : Chain cell p (l ++ (a, v) :: m))
    (ha : cell a = some (v, next)) (w : V) :
    Chain (Function.update cell a (some (w, next))) p (l ++ (a, w) :: m) := by
  have hnodup := h.nodup
  induction l generalizing p with
  | nil =>
    cases h with
    | cons ha' rest =>
      rw [ha] at ha'
      cases ha'
      rw [List.nil_append, List.map_cons, List.nodup_cons] at hnodup
      exact .cons (Function.update_self ..) (rest.update hnodup.1 _)
  | cons c l ih =>
    cases h with
    | @cons b u next' _ hb rest =>
      rw [List.cons_append, List.map_cons, List.nodup_cons] at hnodup
      have hne : b ≠ a := by
        rintro rfl
        exact hnodup.1 (by simp)
      refine .cons ?_ (ih rest hnodup.2)
      rw [Function.update_of_ne hne, hb]

theorem Chain.link {b : A} {v w : V} (h : Chain cell p (l ++ [(b, v)])) (hb : cell b = some (v, none))
    (ha : cell a = some (w, none)) (hnew : a ∉ (l ++ [(b, v)]).map Prod.fst) :
    Chain (Function.update cell b (some (v, some a))) p (l ++ [(b, v), (a, w)]) := by
  have hnodup := h.nodup
  have hab : a ≠ b := by
    rintro rfl
    exact hnew (by simp)
  induction l generalizing p with
  | nil =>
    cases h with
    | cons _ _ =>
      refine .cons (Function.update_self ..) (.cons ?_ .nil)
      rw [Function.update_of_ne hab, ha]
  | cons c l ih =>
    cases h with
    | @cons d u next' _ hd rest =>
      rw [List.cons_append, List.map_cons, List.nodup_cons] at hnodup
      rw [List.cons_append, List.map_cons, List.mem_cons, not_or] at hnew
      have hne : d ≠ b := by
        rintro rfl
        exact hnodup.1 (by simp)
      refine .cons ?_ (ih rest hnew.2 hnodup.2)
      rw [Function.update_of_ne hne, hd]

end Update

end KbReg.Linked
