import Mathlib.Data.List.Induction
import Mathlib.Logic.Function.Basic

namespace KbReg.Overlay

variable {K V : Type*} [DecidableEq K]

def overlay (m : K → V) (l : List (K × V)) : K → V :=
  l.foldl (fun m p => Function.update m p.1 p.2) m

def last (l : List (K × V)) (k : K) : Option (K × V) := l.reverse.find? (·.1 = k)

theorem overlay_apply (m : K → V) (l : List (K × V)) (k : K) :
    overlay m l k = match last l k with
      | some p => p.2
      | none => m k := by
  induction l using List.reverseRecOn with
  | nil => rfl
  | append_singleton l p ih =>
    rw [overlay, List.foldl_append, List.foldl_cons, List.foldl_nil, last, List.reverse_append]
    by_cases hk : p.1 = k
    · simp [hk]
    · rw [Function.update_of_ne (Ne.symm hk)]
      simpa [hk, last, overlay] using ih

end KbReg.Overlay
