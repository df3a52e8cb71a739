import Mathlib.Data.List.Nodup

namespace KbReg.Keyed

variable {R K : Type*} [DecidableEq K] (key : R → K)

def find (k : K) : List R → Option R
  | [] => none
  | r :: rs => if key r = k then some r else find k rs

def overwrite (r : R) : List R → List R
  | [] => []
  | s :: rs => if key s = key r then r :: rs else s :: overwrite r rs

def put (r : R) (l : List R) : List R :=
  if (find key (key r) l).isSome then overwrite key r l else l ++ [r]

lemma find_append (k : K) (l m : List R) : find key k (l ++ m) = (find key k l).or (find key k m) := by
  induction l with
  | nil => simp [find]
  | cons r rs ih => by_cases h : key r = k <;> simp [find, h, ih]

lemma find_overwrite_of_ne {k : K} {r : R} (h : k ≠ key r) (l : List R) :
    find key k (overwrite key r l) = find key k l := by
  induction l with
  | nil => rfl
  | cons s rs ih =>
    by_cases hs : key s = key r
    · simp [overwrite, find, hs, Ne.symm h]
    · simp [overwrite, find, hs, ih]

lemma find_overwrite_self {r : R} {l : List R} (h : (find key (key r) l).isSome) :
    find key (key r) (overwrite key r l) = some r := by
  induction l with
  | nil => simp [find] at h
  | cons s rs ih =>
    by_cases hs : key s = key r
    · simp [overwrite, find, hs]
    · simp only [find, hs, if_false] at h
      simp [overwrite, find, hs, ih h]

theorem find_put (k : K) (r : R) (l : List R) :
    find key k (put key r l) = if k = key r then some r else find key k l := by
  rw [put]
  split_ifs with hs hk hk
  · subst hk
    exact find_overwrite_self key hs
  · exact find_overwrite_of_ne key hk l
  · subst hk
    have hn := Option.not_isSome_iff_eq_none.mp hs
    rw [find_append, hn]
    simp [find]
  · rw [find_append]
    simp [find, Ne.symm hk]

lemma overwrite_keys (r : R) (l : List R) : (overwrite key r l).map key = l.map key := by
  induction l with
  | nil => rfl
  | cons s rs ih =>
    by_cases hs : key s = key r
    · simp [overwrite, hs]
    · simp [overwrite, hs, ih]

lemma find_isSome {k : K} {l : List R} : (find key k l).isSome ↔ k ∈ l.map key := by
  induction l with
  | nil => simp [find]
  | cons s rs ih =>
    by_cases hs : key s = k
    · simp [find, hs]
    · simp [find, hs, ih, Ne.symm hs]

lemma mem_put {r s : R} {l : List R} (h : s ∈ put key r l) : s = r ∨ s ∈ l := by
  have hover {l : List R} (h : s ∈ overwrite key r l) : s = r ∨ s ∈ l := by
    induction l with
    | nil => exact Or.inr h
    | cons t rs ih =>
      rw [overwrite] at h
      split_ifs at h
      · rcases List.mem_cons.mp h with he | hm
        · exact Or.inl he
        · exact Or.inr (List.mem_cons_of_mem _ hm)
      · rcases List.mem_cons.mp h with he | hm
        · exact Or.inr (he ▸ List.mem_cons_self)
        · exact (ih hm).imp_right (List.mem_cons_of_mem _)
  rw [put] at h
  split_ifs at h
  · exact hover h
  · rcases List.mem_append.mp h with hm | hm
    · exact Or.inr hm
    · exact Or.inl (List.mem_singleton.mp hm)

theorem put_nodup (r : R) {l : List R} (h : (l.map key).Nodup) : ((put key r l).map key).Nodup := by
  rw [put]
  split_ifs with hs
  · rwa [overwrite_keys]
  · rw [List.map_append, List.nodup_append]
    refine ⟨h, by simp, ?_⟩
    intro k hk k' hk' he
    rw [List.map_singleton, List.mem_singleton] at hk'
    rw [he, hk'] at hk
    exact hs ((find_isSome key).mpr hk)

end KbReg.Keyed
