import KbReg.Text.Utf8

/-! The checked half of the vendored library, as far as `u8size` calls it. -/

namespace KbReg.Text

open KbReg.Host KbReg.Unicode

inductive UtfError
  | notEnoughRoom
  | invalidLead
  | incompleteSequence
  | overlongSequence
  | invalidCodePoint
  deriving DecidableEq, Repr

inductive Exception
  | notEnoughRoom
  | invalidUtf8 (u8 : UInt8)
  | invalidCodePoint (cp : UInt32)
  deriving DecidableEq, Repr

def trailSurrogateMax : UInt32 := 0xdfff
def codePointMax : UInt32 := 0x0010ffff

def isTrail (oc : UInt8) : Prop := oc >>> 6 = 0x2

instance (oc : UInt8) : Decidable (isTrail oc) := inferInstanceAs (Decidable (_ = _))

def isSurrogate (cp : UInt32) : Prop := leadSurrogateMin ≤ cp ∧ cp ≤ trailSurrogateMax

instance (cp : UInt32) : Decidable (isSurrogate cp) := inferInstanceAs (Decidable (_ ∧ _))

def isCodePointValid (cp : UInt32) : Prop := cp ≤ codePointMax ∧ ¬ isSurrogate cp

instance (cp : UInt32) : Decidable (isCodePointValid cp) := inferInstanceAs (Decidable (_ ∧ ¬ _))

def isOverlongSequence (cp : UInt32) (length : ℕ) : Bool :=
  if cp < 0x80 then length ≠ 1
  else if cp < 0x800 then length ≠ 2
  else if cp < 0x10000 then length ≠ 3
  else false

def increaseSafely : Bytes → Except UtfError (UInt8 × Bytes)
  | [] => .error .notEnoughRoom
  | b :: it => if isTrail b then .ok (b, it) else .error .incompleteSequence

section Sequences

variable (lead : UInt8) (it : Bytes)

def getSequence1 : Except UtfError (UInt32 × Bytes) := .ok (mask8 lead, it)

def getSequence2 : Except UtfError (UInt32 × Bytes) := do
  let (b, it) ← increaseSafely it
  .ok (((mask8 lead <<< (6 : UInt32)) &&& 0x7ff) + (mask8 b &&& 0x3f), it)

def getSequence3 : Except UtfError (UInt32 × Bytes) := do
  let (b, it) ← increaseSafely it
  let cp := ((mask8 lead <<< (12 : UInt32)) &&& 0xffff) + ((mask8 b <<< (6 : UInt32)) &&& 0xfff)
  let (b, it) ← increaseSafely it
  .ok (cp + (mask8 b &&& 0x3f), it)

def getSequence4 : Except UtfError (UInt32 × Bytes) := do
  let (b, it) ← increaseSafely it
  let cp := ((mask8 lead <<< (18 : UInt32)) &&& 0x1fffff) + ((mask8 b <<< (12 : UInt32)) &&& 0x3ffff)
  let (b, it) ← increaseSafely it
  let cp := cp + ((mask8 b <<< (6 : UInt32)) &&& 0xfff)
  let (b, it) ← increaseSafely it
  .ok (cp + (mask8 b &&& 0x3f), it)

def getSequence : Except UtfError (UInt32 × Bytes) :=
  match sequenceLength lead with
  | 0 => .error .invalidLead
  | 1 => getSequence1 lead it
  | 2 => getSequence2 lead it
  | 3 => getSequence3 lead it
  | _ => getSequence4 lead it

end Sequences

/-- The code point and what follows it. Where it fails it leaves the iterator where it was. -/
def validateNext : Bytes → Except UtfError (UInt32 × Bytes)
  | [] => .error .notEnoughRoom
  | lead :: it => do
    let (cp, rest) ← getSequence lead it
    if isCodePointValid cp then
      if isOverlongSequence cp (sequenceLength lead) then .error .overlongSequence else .ok (cp, rest)
    else .error .invalidCodePoint

/-- The exception that `utf8::next` makes of an error. The one for an invalid code point carries the
variable that is set on success only. -/
def thrown (it : Bytes) : UtfError → Exception
  | .notEnoughRoom => .notEnoughRoom
  | .invalidCodePoint => .invalidCodePoint 0
  | _ => .invalidUtf8 (it.headD 0)

def checkedNext (it : Bytes) : Except Exception (UInt32 × Bytes) := (validateNext it).mapError (thrown it)

def takeTrails : ℕ → Bytes → Except UtfError (Bytes × Bytes)
  | 0, it => .ok ([], it)
  | n + 1, it => do
    let (b, it) ← increaseSafely it
    let (bs, it) ← takeTrails n it
    .ok (b :: bs, it)

def value (lead : UInt8) (trails : Bytes) : ℕ :=
  trails.foldl (fun v b => v * 64 + b.toNat % 64)
    (if trails = [] then lead.toNat else lead.toNat % 2 ^ (6 - trails.length))

section Trails

variable {n : ℕ} {it trails rest : Bytes}

lemma increaseSafely_trail {b : UInt8} (h : isTrail b) (it : Bytes) :
    increaseSafely (b :: it) = .ok (b, it) := if_pos h

lemma increaseSafely_other {b : UInt8} (h : ¬ isTrail b) (it : Bytes) :
    increaseSafely (b :: it) = .error .incompleteSequence := if_neg h

lemma takeTrails_all (h : ∀ b ∈ trails, isTrail b) (rest : Bytes) :
    takeTrails trails.length (trails ++ rest) = .ok (trails, rest) := by
  induction trails with
  | nil => rfl
  | cons b trails ih =>
    rw [List.forall_mem_cons] at h
    rw [List.length_cons, List.cons_append, takeTrails, increaseSafely_trail h.1]
    change (takeTrails trails.length (trails ++ rest)).bind _ = _
    rw [ih h.2]
    rfl

lemma takeTrails_short (hlen : it.length < n) (h : ∀ b ∈ it, isTrail b) :
    takeTrails n it = .error .notEnoughRoom := by
  induction it generalizing n with
  | nil =>
    obtain ⟨n, rfl⟩ : ∃ k, n = k + 1 := ⟨n - 1, by rw [List.length_nil] at hlen; omega⟩
    rfl
  | cons b it ih =>
    obtain ⟨n, rfl⟩ : ∃ k, n = k + 1 := ⟨n - 1, by omega⟩
    rw [List.forall_mem_cons] at h
    rw [takeTrails, increaseSafely_trail h.1]
    change (takeTrails n it).bind _ = _
    rw [ih (Nat.lt_of_succ_lt_succ hlen) h.2]
    rfl

lemma takeTrails_other {i : ℕ} {b : UInt8} (hi : i < n) (hb : it[i]? = some b) (h : ¬ isTrail b) :
    takeTrails n it = .error .incompleteSequence := by
  induction it generalizing n i with
  | nil => cases hb
  | cons c it ih =>
    obtain ⟨n, rfl⟩ : ∃ k, n = k + 1 := ⟨n - 1, by omega⟩
    by_cases hc : isTrail c
    · cases i with
      | zero =>
        cases hb
        exact absurd hc h
      | succ i =>
        rw [takeTrails, increaseSafely_trail hc]
        change (takeTrails n it).bind _ = _
        rw [ih (Nat.lt_of_succ_lt_succ hi) hb]
        rfl
    · rw [takeTrails, increaseSafely_other hc]
      rfl

lemma trails_cases (n : ℕ) (it : Bytes) :
    (∃ trails rest, it = trails ++ rest ∧ trails.length = n ∧ ∀ b ∈ trails, isTrail b) ∨
      (it.length < n ∧ ∀ b ∈ it, isTrail b) ∨ ∃ i < n, ∃ b, it[i]? = some b ∧ ¬ isTrail b := by
  by_cases hother : ∃ i < n, ∃ b, it[i]? = some b ∧ ¬ isTrail b
  · exact Or.inr (Or.inr hother)
  have htrail {i : ℕ} {b : UInt8} (hi : i < n) (hb : it[i]? = some b) : isTrail b := by
    by_contra hnot
    exact hother ⟨i, hi, b, hb, hnot⟩
  rcases Nat.lt_or_ge it.length n with hlt | hle
  · refine Or.inr (Or.inl ⟨hlt, fun b hb => ?_⟩)
    obtain ⟨i, hi⟩ := List.mem_iff_getElem?.mp hb
    exact htrail ((List.getElem?_eq_some_iff.mp hi).1.trans hlt) hi
  · refine Or.inl ⟨it.take n, it.drop n, (List.take_append_drop n it).symm, List.length_take_of_le hle,
      fun b hb => ?_⟩
    obtain ⟨i, hi⟩ := List.mem_iff_getElem?.mp hb
    rw [List.getElem?_take] at hi
    split_ifs at hi with hlt
    exact htrail hlt hi

end Trails

section Sequences

variable {lead : UInt8}

lemma isTrail_iff (b : UInt8) : isTrail b ↔ 0x80 ≤ b.toNat ∧ b.toNat < 0xc0 := by
  have hb := b.toNat_lt
  rw [isTrail, ← UInt8.toNat_inj, UInt8.toNat_shiftRight, Nat.shiftRight_eq_div_pow]
  change b.toNat / 64 = 2 ↔ _
  omega

lemma sequenceLength_eq (lead : UInt8) : sequenceLength lead =
    if lead.toNat < 0x80 then 1 else if lead.toNat < 0xc0 then 0 else if lead.toNat < 0xe0 then 2
    else if lead.toNat < 0xf0 then 3 else if lead.toNat < 0xf8 then 4 else 0 := by
  have hb := lead.toNat_lt
  simp only [sequenceLength, UInt8.lt_iff_toNat_lt, ← UInt8.toNat_inj, UInt8.toNat_shiftRight,
    Nat.shiftRight_eq_div_pow]
  change (if lead.toNat < 128 then 1 else if lead.toNat / 32 = 6 then 2
    else if lead.toNat / 16 = 14 then 3 else if lead.toNat / 8 = 30 then 4 else 0) = _
  split_ifs <;> omega

lemma low_bits (b : UInt8) (s m : UInt32) (k : ℕ) (hm : m.toNat = 2 ^ k - 1)
    (hs : 256 * 2 ^ (s.toNat % 32) ≤ 2 ^ 32) :
    ((mask8 b <<< s) &&& m).toNat = b.toNat * 2 ^ (s.toNat % 32) % 2 ^ k := by
  have hb := b.toNat_lt
  rw [UInt32.toNat_and, hm, Nat.and_two_pow_sub_one_eq_mod, UInt32.toNat_shiftLeft, mask8,
    UInt8.toNat_toUInt32, Nat.shiftLeft_eq]
  congr 1
  apply Nat.mod_eq_of_lt
  calc b.toNat * 2 ^ (s.toNat % 32) < 256 * 2 ^ (s.toNat % 32) :=
        Nat.mul_lt_mul_of_pos_right hb (Nat.two_pow_pos _)
    _ ≤ 2 ^ 32 := hs

lemma last_bits (b : UInt8) : (mask8 b &&& 0x3f).toNat = b.toNat % 64 := by
  rw [UInt32.toNat_and, mask8, UInt8.toNat_toUInt32]
  exact Nat.and_two_pow_sub_one_eq_mod _ 6

lemma value_one (lead b : UInt8) : value lead [b] = lead.toNat % 32 * 64 + b.toNat % 64 := rfl

lemma value_two (lead b c : UInt8) :
    value lead [b, c] = (lead.toNat % 16 * 64 + b.toNat % 64) * 64 + c.toNat % 64 := rfl

lemma value_three (lead b c d : UInt8) : value lead [b, c, d] =
    ((lead.toNat % 8 * 64 + b.toNat % 64) * 64 + c.toNat % 64) * 64 + d.toNat % 64 := rfl

lemma getSequence2_eq (lead : UInt8) (it : Bytes) : getSequence2 lead it =
    (takeTrails 1 it).map fun r => (UInt32.ofNat (value lead r.1), r.2) := by
  rw [getSequence2, takeTrails]
  cases increaseSafely it with
  | error e => rfl
  | ok r =>
    obtain ⟨b, it⟩ := r
    have hcp : ((mask8 lead <<< (6 : UInt32)) &&& 0x7ff) + (mask8 b &&& 0x3f) =
        UInt32.ofNat (value lead [b]) := by
      apply UInt32.toNat_inj.mp
      rw [UInt32.toNat_add, low_bits lead 6 0x7ff 11 rfl (by decide), last_bits, value_one,
        UInt32.toNat_ofNat']
      change (lead.toNat * 64 % 2048 + _) % _ = _
      omega
    exact congrArg (fun cp => Except.ok (cp, it)) hcp

lemma getSequence3_eq (lead : UInt8) (it : Bytes) : getSequence3 lead it =
    (takeTrails 2 it).map fun r => (UInt32.ofNat (value lead r.1), r.2) := by
  rw [getSequence3, takeTrails]
  cases increaseSafely it with
  | error e => rfl
  | ok r =>
    obtain ⟨b, it⟩ := r
    change (increaseSafely it).bind _ = ((takeTrails 1 it).bind _).map _
    rw [takeTrails]
    cases increaseSafely it with
    | error e => rfl
    | ok r =>
      obtain ⟨c, it⟩ := r
      have hcp : ((mask8 lead <<< (12 : UInt32)) &&& 0xffff) + ((mask8 b <<< (6 : UInt32)) &&& 0xfff) +
          (mask8 c &&& 0x3f) = UInt32.ofNat (value lead [b, c]) := by
        apply UInt32.toNat_inj.mp
        rw [UInt32.toNat_add, UInt32.toNat_add, low_bits lead 12 0xffff 16 rfl (by decide),
          low_bits b 6 0xfff 12 rfl (by decide), last_bits, value_two, UInt32.toNat_ofNat']
        change ((lead.toNat * 4096 % 65536 + b.toNat * 64 % 4096) % _ + _) % _ = _
        omega
      exact congrArg (fun cp => Except.ok (cp, it)) hcp

lemma getSequence4_eq (lead : UInt8) (it : Bytes) : getSequence4 lead it =
    (takeTrails 3 it).map fun r => (UInt32.ofNat (value lead r.1), r.2) := by
  rw [getSequence4, takeTrails]
  cases increaseSafely it with
  | error e => rfl
  | ok r =>
    obtain ⟨b, it⟩ := r
    change (increaseSafely it).bind _ = ((takeTrails 2 it).bind _).map _
    rw [takeTrails]
    cases increaseSafely it with
    | error e => rfl
    | ok r =>
      obtain ⟨c, it⟩ := r
      change (increaseSafely it).bind _ = (((takeTrails 1 it).bind _).bind _).map _
      rw [takeTrails]
      cases increaseSafely it with
      | error e => rfl
      | ok r =>
        obtain ⟨d, it⟩ := r
        have hcp : ((mask8 lead <<< (18 : UInt32)) &&& 0x1fffff) +
            ((mask8 b <<< (12 : UInt32)) &&& 0x3ffff) + ((mask8 c <<< (6 : UInt32)) &&& 0xfff) +
              (mask8 d &&& 0x3f) = UInt32.ofNat (value lead [b, c, d]) := by
          apply UInt32.toNat_inj.mp
          rw [UInt32.toNat_add, UInt32.toNat_add, UInt32.toNat_add,
            low_bits lead 18 0x1fffff 21 rfl (by decide), low_bits b 12 0x3ffff 18 rfl (by decide),
            low_bits c 6 0xfff 12 rfl (by decide), last_bits, value_three, UInt32.toNat_ofNat']
          change (((lead.toNat * 262144 % 2097152 + b.toNat * 4096 % 262144) % _ +
            c.toNat * 64 % 4096) % _ + _) % _ = _
          omega
        exact congrArg (fun cp => Except.ok (cp, it)) hcp

lemma getSequence_eq (h : sequenceLength lead ≠ 0) (it : Bytes) : getSequence lead it =
    (takeTrails (sequenceLength lead - 1) it).map fun r => (UInt32.ofNat (value lead r.1), r.2) := by
  have hlen := sequenceLength_eq lead
  split_ifs at hlen
  · rw [getSequence, hlen]
    exact congrArg (fun cp => Except.ok (cp, it)) UInt32.ofNat_toNat.symm
  · exact absurd hlen h
  · rw [getSequence, hlen]
    exact getSequence2_eq lead it
  · rw [getSequence, hlen]
    exact getSequence3_eq lead it
  · rw [getSequence, hlen]
    exact getSequence4_eq lead it
  · exact absurd hlen h

end Sequences

section Characters

variable {lead : UInt8} {trails it rest : Bytes}

lemma value_lt (lead : UInt8) {trails : Bytes} (h : trails.length ≤ 3) : value lead trails < 2 ^ 21 := by
  have hlead := lead.toNat_lt
  match trails with
  | [] => exact hlead.trans (by decide)
  | [b] =>
    rw [value_one]
    omega
  | [b, c] =>
    rw [value_two]
    omega
  | [b, c, d] =>
    rw [value_three]
    omega
  | _ :: _ :: _ :: _ :: _ =>
    simp only [List.length_cons] at h
    omega

lemma lead_range (n : ℕ) (h : sequenceLength lead = n) :
    n = 1 ∧ lead.toNat < 0x80 ∨ n = 2 ∧ 0xc0 ≤ lead.toNat ∧ lead.toNat < 0xe0 ∨
      n = 3 ∧ 0xe0 ≤ lead.toNat ∧ lead.toNat < 0xf0 ∨ n = 4 ∧ 0xf0 ≤ lead.toNat ∧ lead.toNat < 0xf8 ∨
      n = 0 ∧ 0x80 ≤ lead.toNat := by
  rw [sequenceLength_eq] at h
  split_ifs at h <;> omega

lemma length_le_of_lead (h : sequenceLength lead = trails.length + 1) : trails.length ≤ 3 := by
  have hrange := lead_range _ h
  omega

def Shortest (trails : Bytes) (v : ℕ) : Prop :=
  match trails.length with
  | 0 => True
  | 1 => 0x80 ≤ v
  | 2 => 0x800 ≤ v
  | _ => 0x10000 ≤ v

lemma shortest_iff (h : sequenceLength lead = trails.length + 1) :
    isOverlongSequence (UInt32.ofNat (value lead trails)) (sequenceLength lead) = false ↔
      Shortest trails (value lead trails) := by
  have hv := value_lt lead (length_le_of_lead h)
  have hnat : (UInt32.ofNat (value lead trails)).toNat = value lead trails := by
    rw [UInt32.toNat_ofNat', Nat.mod_eq_of_lt (by omega)]
  have hle := length_le_of_lead h
  rw [h]
  simp only [isOverlongSequence, UInt32.lt_iff_toNat_lt, hnat, UInt32.reduceToNat]
  match trails with
  | [] =>
    have hval : value lead [] = lead.toNat := rfl
    have hrange := lead_range _ h
    simp only [List.length_nil, Nat.zero_add] at hrange
    simp [Shortest, hval]
    omega
  | [b] =>
    rw [value_one]
    simp [Shortest]
    omega
  | [b, c] =>
    rw [value_two]
    simp [Shortest]
    omega
  | [b, c, d] =>
    simp [Shortest]
    omega
  | _ :: _ :: _ :: _ :: _ =>
    simp only [List.length_cons] at hle
    omega

lemma validateNext_complete (h : sequenceLength lead = trails.length + 1) (ht : ∀ b ∈ trails, isTrail b)
    (rest : Bytes) : validateNext (lead :: (trails ++ rest)) =
      if isCodePointValid (UInt32.ofNat (value lead trails)) then
        if isOverlongSequence (UInt32.ofNat (value lead trails)) (sequenceLength lead) then
          .error .overlongSequence
        else .ok (UInt32.ofNat (value lead trails), rest)
      else .error .invalidCodePoint := by
  have htake := takeTrails_all ht rest
  rw [show trails.length = sequenceLength lead - 1 by omega] at htake
  rw [validateNext, getSequence_eq (by omega), htake]
  rfl

lemma sequence_eq {c : Char} (h : sequenceLength lead = trails.length + 1) (ht : ∀ b ∈ trails, isTrail b)
    (hv : value lead trails = c.val.toNat) (hs : Shortest trails (value lead trails)) :
    lead :: trails = String.utf8EncodeChar c := by
  have hle := length_le_of_lead h
  have hrange := lead_range _ h
  simp only [isTrail_iff] at ht
  simp only [String.utf8EncodeChar]
  match trails with
  | [] =>
    have hone : lead.toNat = c.val.toNat := hv
    simp only [List.length_nil] at hrange
    rw [if_pos (by omega), ← hone, UInt8.ofNat_toNat]
  | [b] =>
    have hb := ht b (by simp)
    simp only [Shortest, List.length_singleton, value_one] at hs hrange hv
    rw [if_neg (by omega), if_pos (by omega)]
    simp only [List.cons.injEq, ← UInt8.toNat_inj, UInt8.toNat_ofNat', and_true]
    omega
  | [b, d] =>
    have hb := ht b (by simp)
    have hd := ht d (by simp)
    simp only [Shortest, List.length_cons, List.length_nil, value_two] at hs hrange hv
    rw [if_neg (by omega), if_neg (by omega), if_pos (by omega)]
    simp only [List.cons.injEq, ← UInt8.toNat_inj, UInt8.toNat_ofNat', and_true]
    omega
  | [b, d, e] =>
    have hb := ht b (by simp)
    have hd := ht d (by simp)
    have he := ht e (by simp)
    simp only [Shortest, List.length_cons, List.length_nil, value_three] at hs hrange hv
    rw [if_neg (by omega), if_neg (by omega), if_neg (by omega)]
    simp only [List.cons.injEq, ← UInt8.toNat_inj, UInt8.toNat_ofNat', and_true]
    omega
  | _ :: _ :: _ :: _ :: _ =>
    simp only [List.length_cons] at hle
    omega

lemma sequence_of_char (c : Char) : ∃ lead trails, String.utf8EncodeChar c = lead :: trails ∧
    sequenceLength lead = trails.length + 1 ∧ (∀ b ∈ trails, isTrail b) ∧
    value lead trails = c.val.toNat ∧ Shortest trails c.val.toNat := by
  have hscalar : c.val.toNat < 0x110000 := by
    have hc := scalar c
    change c.toNat < _
    omega
  have htrail (n : ℕ) : isTrail (UInt8.ofNat (n % 64 + 0x80)) := by
    rw [isTrail_iff, UInt8.toNat_ofNat']
    omega
  simp only [String.utf8EncodeChar]
  split_ifs with h1 h2 h3
  · refine ⟨_, [], rfl, ?_, by simp, ?_, trivial⟩
    · rw [sequenceLength_eq, UInt8.toNat_ofNat', if_pos (by omega)]
      rfl
    · change (UInt8.ofNat _).toNat = _
      rw [UInt8.toNat_ofNat']
      omega
  · refine ⟨_, [_], rfl, ?_, List.forall_mem_singleton.mpr (htrail _), ?_, ?_⟩
    · rw [sequenceLength_eq, UInt8.toNat_ofNat', if_neg (by omega), if_neg (by omega), if_pos (by omega)]
      rfl
    · rw [value_one, UInt8.toNat_ofNat', UInt8.toNat_ofNat']
      omega
    · simp only [Shortest, List.length_singleton]
      omega
  · refine ⟨_, [_, _], rfl, ?_, List.forall_mem_cons.mpr
      ⟨htrail _, List.forall_mem_singleton.mpr (htrail _)⟩, ?_, ?_⟩
    · rw [sequenceLength_eq, UInt8.toNat_ofNat', if_neg (by omega), if_neg (by omega), if_neg (by omega),
        if_pos (by omega)]
      rfl
    · rw [value_two, UInt8.toNat_ofNat', UInt8.toNat_ofNat', UInt8.toNat_ofNat']
      omega
    · simp only [Shortest, List.length_cons, List.length_nil]
      omega
  · refine ⟨_, [_, _, _], rfl, ?_, List.forall_mem_cons.mpr ⟨htrail _, List.forall_mem_cons.mpr
      ⟨htrail _, List.forall_mem_singleton.mpr (htrail _)⟩⟩, ?_, ?_⟩
    · rw [sequenceLength_eq, UInt8.toNat_ofNat', if_neg (by omega), if_neg (by omega), if_neg (by omega),
        if_neg (by omega), if_pos (by omega)]
      rfl
    · rw [value_three, UInt8.toNat_ofNat', UInt8.toNat_ofNat', UInt8.toNat_ofNat', UInt8.toNat_ofNat']
      omega
    · simp only [Shortest, List.length_cons, List.length_nil]
      omega

lemma isCodePointValid_iff (cp : UInt32) :
    isCodePointValid cp ↔ cp.toNat < 0xD800 ∨ 0xDFFF < cp.toNat ∧ cp.toNat < 0x110000 := by
  simp only [isCodePointValid, isSurrogate, codePointMax, leadSurrogateMin, trailSurrogateMax,
    UInt32.le_iff_toNat_le, UInt32.reduceToNat]
  omega

inductive Blames : Bytes → UtfError → Prop
  | empty : Blames [] .notEnoughRoom
  | invalidLead {lead : UInt8} (h : sequenceLength lead = 0) (it : Bytes) :
      Blames (lead :: it) .invalidLead
  | notEnoughRoom {lead : UInt8} {it : Bytes} (short : it.length + 1 < sequenceLength lead)
      (ht : ∀ b ∈ it, isTrail b) : Blames (lead :: it) .notEnoughRoom
  | incompleteSequence {lead : UInt8} {it : Bytes} {i : ℕ} {b : UInt8}
      (hi : i + 1 < sequenceLength lead) (hb : it[i]? = some b) (h : ¬ isTrail b) :
      Blames (lead :: it) .incompleteSequence
  | invalidCodePoint {lead : UInt8} {trails : Bytes} (h : sequenceLength lead = trails.length + 1)
      (ht : ∀ b ∈ trails, isTrail b)
      (hv : ¬ (value lead trails < 0xD800 ∨ 0xDFFF < value lead trails ∧ value lead trails < 0x110000))
      (rest : Bytes) : Blames (lead :: (trails ++ rest)) .invalidCodePoint
  | overlongSequence {lead : UInt8} {trails : Bytes} (h : sequenceLength lead = trails.length + 1)
      (ht : ∀ b ∈ trails, isTrail b)
      (hv : value lead trails < 0xD800 ∨ 0xDFFF < value lead trails ∧ value lead trails < 0x110000)
      (hs : ¬ Shortest trails (value lead trails)) (rest : Bytes) :
      Blames (lead :: (trails ++ rest)) .overlongSequence

lemma toNat_value (h : sequenceLength lead = trails.length + 1) :
    (UInt32.ofNat (value lead trails)).toNat = value lead trails := by
  have hv := value_lt lead (length_le_of_lead h)
  rw [UInt32.toNat_ofNat', Nat.mod_eq_of_lt (by omega)]

lemma validateNext_char (c : Char) (rest : Bytes) :
    validateNext (String.utf8EncodeChar c ++ rest) = .ok (c.val, rest) := by
  obtain ⟨lead, trails, hc, h, ht, hv, hs⟩ := sequence_of_char c
  have hshort := (shortest_iff h).mpr (hv ▸ hs)
  have hvalid : isCodePointValid c.val := by
    have hscalar := scalar c
    rwa [isCodePointValid_iff]
  rw [hc, List.cons_append, validateNext_complete h ht, hshort, hv, UInt32.ofNat_toNat, if_pos hvalid]
  rfl

lemma validateNext_error {e : UtfError} (h : Blames it e) : validateNext it = .error e := by
  cases h with
  | empty => rfl
  | invalidLead h it =>
    rw [validateNext, getSequence, h]
    rfl
  | notEnoughRoom short ht =>
    rw [validateNext, getSequence_eq (by omega), takeTrails_short (by omega) ht]
    rfl
  | incompleteSequence hi hb h =>
    rw [validateNext, getSequence_eq (by omega), takeTrails_other (by omega) hb h]
    rfl
  | @invalidCodePoint lead trails h ht hv rest =>
    have hinvalid : ¬ isCodePointValid (UInt32.ofNat (value lead trails)) := by
      rwa [isCodePointValid_iff, toNat_value h]
    rw [validateNext_complete h ht, if_neg hinvalid]
  | @overlongSequence lead trails h ht hv hs rest =>
    have hvalid : isCodePointValid (UInt32.ofNat (value lead trails)) := by
      rwa [isCodePointValid_iff, toNat_value h]
    have hlong := (Bool.not_eq_false _).mp (mt (shortest_iff h).mp hs)
    rw [validateNext_complete h ht, if_pos hvalid, if_pos hlong]

lemma char_or_blames (lead : UInt8) (it : Bytes) :
    (∃ c rest, lead :: it = String.utf8EncodeChar c ++ rest) ∨ ∃ e, Blames (lead :: it) e := by
  by_cases hlead : sequenceLength lead = 0
  · exact Or.inr ⟨_, .invalidLead hlead it⟩
  rcases trails_cases (sequenceLength lead - 1) it with ⟨trails, rest, rfl, hlen, ht⟩ | ⟨hlt, ht⟩ |
    ⟨i, hi, b, hb, hnot⟩
  · have h : sequenceLength lead = trails.length + 1 := by omega
    by_cases hv : value lead trails < 0xD800 ∨ 0xDFFF < value lead trails ∧ value lead trails < 0x110000
    · by_cases hs : Shortest trails (value lead trails)
      · have hnat := toNat_value h
        have hvalid : (UInt32.ofNat (value lead trails)).isValidChar := by
          change Nat.isValidChar (UInt32.ofNat (value lead trails)).toNat
          rwa [hnat]
        refine Or.inl ⟨⟨UInt32.ofNat (value lead trails), hvalid⟩, rest, ?_⟩
        rw [← sequence_eq h ht hnat.symm hs]
        rfl
      · exact Or.inr ⟨_, .overlongSequence h ht hv hs rest⟩
    · exact Or.inr ⟨_, .invalidCodePoint h ht hv rest⟩
  · exact Or.inr ⟨_, .notEnoughRoom (by omega) ht⟩
  · exact Or.inr ⟨_, .incompleteSequence (by omega) hb hnot⟩

theorem validateNext_iff (it : Bytes) :
    (∀ cp rest, validateNext it = .ok (cp, rest) ↔
      ∃ c : Char, it = String.utf8EncodeChar c ++ rest ∧ cp = c.val) ∧
    ∀ e, validateNext it = .error e ↔ Blames it e := by
  have hcases : (∃ c rest, it = String.utf8EncodeChar c ++ rest) ∨ ∃ e, Blames it e := by
    cases it with
    | nil => exact Or.inr ⟨_, .empty⟩
    | cons lead it => exact char_or_blames lead it
  rcases hcases with ⟨c, rest, rfl⟩ | ⟨e, he⟩
  · refine ⟨fun cp rest' => ⟨fun h => ?_, ?_⟩, fun e => ⟨fun h => ?_, validateNext_error⟩⟩
    · rw [validateNext_char] at h
      cases h
      exact ⟨c, rfl, rfl⟩
    · rintro ⟨c', hc', rfl⟩
      rw [hc', validateNext_char]
    · rw [validateNext_char] at h
      cases h
  · refine ⟨fun cp rest => ⟨fun h => ?_, ?_⟩, fun e' => ⟨fun h => ?_, validateNext_error⟩⟩
    · rw [validateNext_error he] at h
      cases h
    · rintro ⟨c, hc, rfl⟩
      rw [hc, validateNext_char]
    · rw [validateNext_error he] at h
      cases h
      exact he

end Characters

end KbReg.Text
