import KbReg.Host.Session
import Mathlib.Data.List.GetD

namespace KbReg.Cli

open KbReg.Host

def bufSize : ℕ := 256

inductive Ending
  | eof
  | error
  deriving DecidableEq, Repr

/-- What `fread` delivers on the standard input: results that set no flag, then the one that meets the
ending, and from there on nothing. -/
structure Stdin where
  results : List Bytes
  last : Bytes
  ending : Ending
  fits : ∀ bytes ∈ results ++ [last], bytes.length ≤ bufSize

def Stdin.delivered (stdin : Stdin) : Bytes := stdin.results.flatten ++ stdin.last

def Stdin.fread (stdin : Stdin) (n : ℕ) : Bytes :=
  stdin.results.getD n (if n = stdin.results.length then stdin.last else [])

def Stdin.feof (stdin : Stdin) (n : ℕ) : Prop := stdin.results.length ≤ n ∧ stdin.ending = .eof

instance (stdin : Stdin) (n : ℕ) : Decidable (stdin.feof n) := inferInstanceAs (Decidable (_ ∧ _))

def readLoop (stdin : Stdin) : ℕ → ℕ → Bytes → Option Bytes
  | 0, _, _ => none
  | fuel + 1, n, ss =>
    let bytes := stdin.fread n
    let ss := ss ++ bytes
    if bytes.length < bufSize then
      if stdin.feof n then some ss else readLoop stdin fuel (n + 1) ss
    else readLoop stdin fuel (n + 1) ss

def readAll (stdin : Stdin) (fuel : ℕ) : Option Bytes := readLoop stdin fuel 0 []

variable {stdin : Stdin}

lemma readLoop_goes_on {n : ℕ} (h : bufSize ≤ (stdin.fread n).length ∨ ¬ stdin.feof n) (fuel : ℕ)
    (ss : Bytes) :
    readLoop stdin (fuel + 1) n ss = readLoop stdin fuel (n + 1) (ss ++ stdin.fread n) := by
  rw [readLoop]
  split_ifs with hshort heof
  · rcases h with hfull | hnot
    · exact absurd hshort (not_lt.mpr hfull)
    · exact absurd heof hnot
  · rfl
  · rfl

lemma readLoop_ends {n : ℕ} (hshort : (stdin.fread n).length < bufSize) (heof : stdin.feof n) (fuel : ℕ)
    (ss : Bytes) : readLoop stdin (fuel + 1) n ss = some (ss ++ stdin.fread n) := by
  rw [readLoop, if_pos hshort, if_pos heof]

lemma fread_last : stdin.fread stdin.results.length = stdin.last := by
  rw [Stdin.fread, List.getD_eq_default _ _ le_rfl, if_pos rfl]

lemma fread_after : stdin.fread (stdin.results.length + 1) = [] := by
  rw [Stdin.fread, List.getD_eq_default _ _ (Nat.le_succ _), if_neg (Nat.succ_ne_self _)]

lemma readLoop_results (fuel : ℕ) {n k : ℕ} (hn : n + k = stdin.results.length) (ss : Bytes) :
    readLoop stdin (fuel + k) n ss =
      readLoop stdin fuel stdin.results.length (ss ++ (stdin.results.drop n).flatten) := by
  induction k generalizing n ss with
  | zero =>
    obtain rfl : n = stdin.results.length := hn
    rw [List.drop_length, List.flatten_nil, List.append_nil, Nat.add_zero]
  | succ k ih =>
    have hlt : n < stdin.results.length := by omega
    have hnot : ¬ stdin.feof n := fun h => absurd h.1 (not_le.mpr hlt)
    have hread : stdin.fread n = stdin.results[n] := List.getD_eq_getElem _ _ hlt
    rw [← Nat.add_assoc, readLoop_goes_on (Or.inr hnot), ih (by omega), hread,
      List.drop_eq_getElem_cons hlt, List.flatten_cons, List.append_assoc]

lemma readAll_eof (h : stdin.ending = .eof) (fuel : ℕ) :
    readAll stdin (fuel + 2 + stdin.results.length) = some stdin.delivered := by
  have heof {n : ℕ} (hn : stdin.results.length ≤ n) : stdin.feof n := ⟨hn, h⟩
  rw [readAll, readLoop_results _ (Nat.zero_add _), List.drop_zero, List.nil_append, Stdin.delivered]
  by_cases hshort : stdin.last.length < bufSize
  · rw [readLoop_ends (by rwa [fread_last]) (heof le_rfl), fread_last]
  · rw [readLoop_goes_on (Or.inl (by rw [fread_last]; exact not_lt.mp hshort)), fread_last,
      readLoop_ends (by rw [fread_after]; decide) (heof (Nat.le_succ _)), fread_after, List.append_nil]

lemma readLoop_error (h : stdin.ending = .error) (fuel n : ℕ) (ss : Bytes) :
    readLoop stdin fuel n ss = none := by
  induction fuel generalizing n ss with
  | zero => rfl
  | succ fuel ih =>
    have hnot : ¬ stdin.feof n := by
      rintro ⟨_, heof⟩
      rw [h] at heof
      cases heof
    rw [readLoop_goes_on (Or.inr hnot)]
    exact ih _ _

/-- The loop asks for the end of the file alone, so an error keeps it going for ever. -/
theorem read_all_returns_iff (stdin : Stdin) :
    ((∃ n, ∀ fuel, n ≤ fuel → readAll stdin fuel = some stdin.delivered) ↔ stdin.ending = .eof) ∧
      (stdin.ending = .error → ∀ fuel, readAll stdin fuel = none) := by
  have herror (h : stdin.ending = .error) (fuel : ℕ) : readAll stdin fuel = none :=
    readLoop_error h fuel 0 []
  refine ⟨⟨?_, ?_⟩, herror⟩
  · rintro ⟨n, hn⟩
    cases h : stdin.ending with
    | eof => rfl
    | error =>
      have hsome := hn n le_rfl
      rw [herror h n] at hsome
      cases hsome
  · intro h
    refine ⟨2 + stdin.results.length, fun fuel hfuel => ?_⟩
    obtain ⟨k, rfl⟩ := Nat.exists_eq_add_of_le' hfuel
    rw [← Nat.add_assoc]
    exact readAll_eof h k

def directory : Stdin := ⟨[], [], .error, by simp⟩

theorem read_all_hangs :
    ¬ ∃ n, ∀ fuel, n ≤ fuel → readAll directory fuel = some directory.delivered := by
  rintro ⟨n, hn⟩
  have hsome := hn n le_rfl
  rw [readAll, readLoop_error rfl] at hsome
  cases hsome

end KbReg.Cli
