import Mathlib.Data.List.Basic

/-! Runs of a machine whose steps are events that may be impossible. -/

namespace KbReg.Runs

variable {S E : Type*} (step : S → E → Option S)

def run (s : S) : List E → Option S
  | [] => some s
  | e :: es => (step s e).bind fun t => run t es

def Always (allowed : S → E → Prop) (s : S) : List E → Prop
  | [] => True
  | e :: es => allowed s e ∧ ∀ t, step s e = some t → Always allowed t es

variable {step}

lemma run_cons {s u : S} {e : E} {es : List E} (h : run step s (e :: es) = some u) :
    ∃ t, step s e = some t ∧ run step t es = some u :=
  Option.bind_eq_some_iff.mp h

lemma run_append (s : S) (es es' : List E) :
    run step s (es ++ es') = (run step s es).bind fun t => run step t es' := by
  induction es generalizing s with
  | nil => rfl
  | cons e es ih =>
    rw [List.cons_append, run, run, Option.bind_assoc]
    congr 1
    funext t
    exact ih t

lemma run_concat {s u : S} {e : E} {es : List E} (h : run step s (es ++ [e]) = some u) :
    ∃ t, run step s es = some t ∧ step t e = some u := by
  rw [run_append] at h
  obtain ⟨t, ht, hu⟩ := Option.bind_eq_some_iff.mp h
  obtain ⟨v, hv, hlast⟩ := run_cons hu
  obtain rfl : v = u := Option.some.inj hlast
  exact ⟨t, ht, hv⟩

lemma run_snoc {s t u : S} {e : E} {es : List E} (h : run step s es = some t) (he : step t e = some u) :
    run step s (es ++ [e]) = some u := by
  rw [run_append, h, Option.bind_some, run, he]
  rfl

theorem stops_once {stopped : S → Prop} (hstop : ∀ s e, stopped s → step s e = none) {s t u : S}
    {es es' all : List E} (hp : es <+: all) (hp' : es' <+: all) (h : run step s es = some t)
    (h' : run step s es' = some u) (ht : stopped t) (hu : stopped u) : es = es' := by
  have hlonger {es es' : List E} {t u : S} (hle : es <+: es') (h : run step s es = some t)
      (h' : run step s es' = some u) (ht : stopped t) : es = es' := by
    obtain ⟨rest, rfl⟩ := hle
    cases rest with
    | nil => rw [List.append_nil]
    | cons e rest =>
      rw [run_append, h, Option.bind_some, run, hstop t e ht] at h'
      cases h'
  rcases List.prefix_or_prefix_of_prefix hp hp' with hle | hle
  · exact hlonger hle h h' ht
  · exact (hlonger hle h' h hu).symm

lemma always_cons {allowed : S → E → Prop} {s t : S} {e : E} {es : List E} (ha : allowed s e)
    (he : step s e = some t) (h : Always step allowed t es) : Always step allowed s (e :: es) := by
  refine ⟨ha, fun u hu => ?_⟩
  obtain rfl : t = u := Option.some.inj (he.symm.trans hu)
  exact h

lemma always_of_prefix {allowed : S → E → Prop} {es es' : List E} (hp : es <+: es') {s : S}
    (h : Always step allowed s es') : Always step allowed s es := by
  obtain ⟨rest, rfl⟩ := hp
  induction es generalizing s with
  | nil => trivial
  | cons e es ih => exact ⟨h.1, fun t ht => ih (h.2 t ht)⟩

lemma always_of_forall {allowed : S → E → Prop} {es : List E} (h : ∀ s, ∀ e ∈ es, allowed s e) {s : S} :
    Always step allowed s es := by
  induction es generalizing s with
  | nil => trivial
  | cons e es ih =>
    exact ⟨h s e (by simp), fun t _ => ih fun u e' he => h u e' (List.mem_cons_of_mem _ he)⟩

lemma always_and {allowed allowed' : S → E → Prop} {es : List E} {s : S} (h : Always step allowed s es)
    (h' : Always step allowed' s es) : Always step (fun s e => allowed s e ∧ allowed' s e) s es := by
  induction es generalizing s with
  | nil => trivial
  | cons e es ih => exact ⟨⟨h.1, h'.1⟩, fun t ht => ih (h.2 t ht) (h'.2 t ht)⟩

theorem invariant_of_always {I : S → Prop} {allowed : S → E → Prop}
    (keep : ∀ {s e t}, I s → allowed s e → step s e = some t → I t) {s t : S} {es : List E}
    (ha : Always step allowed s es) (h : run step s es = some t) (hs : I s) : I t := by
  induction es generalizing s with
  | nil =>
    obtain rfl : s = t := Option.some.inj h
    exact hs
  | cons e es ih =>
    obtain ⟨u, hu, hes⟩ := run_cons h
    exact ih (ha.2 u hu) hes (keep hs ha.1 hu)

theorem invariant {I : S → Prop} (keep : ∀ {s e t}, I s → step s e = some t → I t) {s t : S}
    {es : List E} (h : run step s es = some t) (hs : I s) : I t :=
  invariant_of_always (fun hs _ => keep hs) (always_of_forall fun _ _ _ => trivial) h hs

theorem balance [DecidableEq E] {held : S → ℕ} {take give : E}
    (keep : ∀ {s e t}, step s e = some t → [e].count take + held s = [e].count give + held t) {s t : S}
    {es : List E} (h : run step s es = some t) : es.count take + held s = es.count give + held t := by
  induction es generalizing s with
  | nil =>
    obtain rfl : s = t := Option.some.inj h
    simp
  | cons e es ih =>
    obtain ⟨u, hu, hrest⟩ := run_cons h
    have hstep := keep hu
    have hrun := ih hrest
    have hcons (a : E) : (e :: es).count a = [e].count a + es.count a := by
      rw [← List.count_append, List.singleton_append]
    rw [hcons, hcons]
    omega

end KbReg.Runs
