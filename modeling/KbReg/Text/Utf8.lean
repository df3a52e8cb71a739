import KbReg.Host.Session
import KbReg.Lib.Unicode

/-! `u8enc` and `u8dec`, and the converters of the vendored library that they call. -/

namespace KbReg.Text

open KbReg.Host KbReg.Unicode

def leadSurrogateMin : UInt32 := 0xd800
def leadSurrogateMax : UInt32 := 0xdbff
def trailSurrogateMin : UInt32 := 0xdc00
def leadOffset : UInt32 := 0xd7c0
def surrogateOffset : UInt32 := 0xfca02400

def mask8 (oc : UInt8) : UInt32 := oc.toUInt32

def mask16 (oc : UInt32) : UInt32 := 0xffff &&& oc

def isLeadSurrogate (cp : UInt32) : Prop := leadSurrogateMin ≤ cp ∧ cp ≤ leadSurrogateMax

instance (cp : UInt32) : Decidable (isLeadSurrogate cp) := inferInstanceAs (Decidable (_ ∧ _))

def append (cp : UInt32) : Bytes :=
  if cp < 0x80 then [cp.toUInt8]
  else if cp < 0x800 then [((cp >>> 6) ||| 0xc0).toUInt8, ((cp &&& 0x3f) ||| 0x80).toUInt8]
  else if cp < 0x10000 then
    [((cp >>> 12) ||| 0xe0).toUInt8, (((cp >>> 6) &&& 0x3f) ||| 0x80).toUInt8,
      ((cp &&& 0x3f) ||| 0x80).toUInt8]
  else
    [((cp >>> 18) ||| 0xf0).toUInt8, (((cp >>> 12) &&& 0x3f) ||| 0x80).toUInt8,
      (((cp >>> 6) &&& 0x3f) ||| 0x80).toUInt8, ((cp &&& 0x3f) ||| 0x80).toUInt8]

def utf16to8 : List UInt32 → Bytes
  | [] => []
  | w :: start =>
    let cp := mask16 w
    if isLeadSurrogate cp then
      match start with
      | [] => []
      | trail :: start => append ((cp <<< 10) + mask16 trail + surrogateOffset) ++ utf16to8 start
    else append cp ++ utf16to8 start

def sequenceLength (lead : UInt8) : ℕ :=
  if lead < 0x80 then 1
  else if lead >>> 5 = 0x6 then 2
  else if lead >>> 4 = 0xe then 3
  else if lead >>> 3 = 0x1e then 4
  else 0

/-- `unchecked::next` at the byte `b`, with the code point and what follows it. Behind the last byte it
reads the terminator of the string. -/
def next (b : UInt8) (it : Bytes) : UInt32 × Bytes :=
  let cp := mask8 b
  match sequenceLength b with
  | 2 => (((cp <<< 6) &&& 0x7ff) + (mask8 (it.getD 0 0) &&& 0x3f), it.drop 1)
  | 3 =>
    let cp := ((cp <<< 12) &&& 0xffff) + ((mask8 (it.getD 0 0) <<< (6 : UInt32)) &&& 0xfff)
    (cp + (mask8 (it.getD 1 0) &&& 0x3f), it.drop 2)
  | 4 =>
    let cp := ((cp <<< 18) &&& 0x1fffff) + ((mask8 (it.getD 0 0) <<< (12 : UInt32)) &&& 0x3ffff)
    let cp := cp + ((mask8 (it.getD 1 0) <<< (6 : UInt32)) &&& 0xfff)
    (cp + (mask8 (it.getD 2 0) &&& 0x3f), it.drop 3)
  | _ => (cp, it)

lemma next_shortens (b : UInt8) (it : Bytes) : (next b it).2.length ≤ it.length := by
  rw [next]
  split <;> simp

def units (cp : UInt32) : List UInt32 :=
  -- each unit is cut to 16 bits before it becomes a `wchar_t`
  if 0xffff < cp then
    [((cp >>> 10) + leadOffset).toUInt16.toUInt32,
      ((cp &&& 0x3ff) + trailSurrogateMin).toUInt16.toUInt32]
  else [cp.toUInt16.toUInt32]

def utf8to16 : Bytes → List UInt32
  | [] => []
  | b :: start => units (next b start).1 ++ utf8to16 (next b start).2
termination_by start => start.length
decreasing_by exact Nat.lt_succ_of_le (next_shortens b start)

-- a `wchar_t` has 32 bits on the platforms of the program
def u8enc (w : List UInt32) : Bytes := utf16to8 w

def u8dec (s : Bytes) : List UInt32 := utf8to16 s

def wide (w : List Char) : List UInt32 := w.map Char.val

lemma and_low {x m : UInt8} (k : ℕ) (hm : m.toNat = 2 ^ k - 1) (hx : x.toNat < 2 ^ k) : x &&& m = x := by
  apply UInt8.toNat_inj.mp
  rw [UInt8.toNat_and, hm, Nat.and_two_pow_sub_one_eq_mod, Nat.mod_eq_of_lt hx]

lemma shifted_lt {v : UInt32} (s : UInt32) {k : ℕ} (h : v.toNat < 2 ^ k * 2 ^ (s.toNat % 32)) :
    (v >>> s).toUInt8.toNat < 2 ^ k := by
  rw [UInt32.toNat_toUInt8, UInt32.toNat_shiftRight, Nat.shiftRight_eq_div_pow]
  exact (Nat.mod_le _ _).trans_lt (Nat.div_lt_of_lt_mul (by rwa [Nat.mul_comm]))

lemma append_scalar (c : Char) : append c.val = String.utf8EncodeChar c := by
  have hv : c.val.toNat < 0x110000 := by
    have := scalar c
    change c.toNat < _
    omega
  have hle (n : ℕ) : c.val.toNat ≤ n ↔ c.val.toNat < n + 1 := Nat.lt_succ_iff.symm
  rw [String.utf8EncodeChar_eq_utf8EncodeCharFast, append, String.utf8EncodeCharFast]
  simp only [UInt32.lt_iff_toNat_lt, UInt32.le_iff_toNat_le, UInt32.reduceToNat, UInt32.toUInt8_or,
    UInt32.toUInt8_and, hle, Nat.reduceAdd]
  split_ifs with h1 h2 h3
  · rfl
  · rw [and_low 5 rfl (shifted_lt 6 h2)]
    rfl
  · rw [and_low 4 rfl (shifted_lt 12 h3)]
    rfl
  · have h4 : c.val.toNat < 2 ^ 3 * 2 ^ 18 := by omega
    rw [and_low 3 rfl (shifted_lt 18 h4)]
    rfl

lemma mask16_toNat (w : UInt32) : (mask16 w).toNat = w.toNat % 0x10000 := by
  rw [mask16, UInt32.toNat_and, Nat.and_comm]
  exact Nat.and_two_pow_sub_one_eq_mod _ 16

lemma isLeadSurrogate_iff (cp : UInt32) :
    isLeadSurrogate cp ↔ 0xD800 ≤ cp.toNat ∧ cp.toNat ≤ 0xDBFF := by
  simp only [isLeadSurrogate, UInt32.le_iff_toNat_le]
  rfl

lemma mask16_basic {c : Char} (h : Basic c) : mask16 c.val = c.val := by
  apply UInt32.toNat_inj.mp
  rw [mask16_toNat]
  exact Nat.mod_eq_of_lt h

lemma not_lead_of_scalar (c : Char) : ¬ isLeadSurrogate c.val := by
  rw [isLeadSurrogate_iff]
  have := scalar c
  change ¬ (_ ≤ c.toNat ∧ c.toNat ≤ _)
  omega

lemma append_length_le (cp : UInt32) : (append cp).length ≤ 4 := by
  rw [append]
  split_ifs <;> simp

lemma append_length_lt {cp : UInt32} (h : cp.toNat < 0x10000) : (append cp).length < 4 := by
  rw [append]
  have hlt : cp < 0x10000 := h
  split_ifs <;> simp

section Encode

lemma utf16to8_cons {w : UInt32} (h : ¬ isLeadSurrogate (mask16 w)) (start : List UInt32) :
    utf16to8 (w :: start) = append (mask16 w) ++ utf16to8 start := by
  cases start <;> simp [utf16to8, h]

lemma utf16to8_pair {w : UInt32} (h : isLeadSurrogate (mask16 w)) (trail : UInt32) (start : List UInt32) :
    utf16to8 (w :: trail :: start) =
      append ((mask16 w <<< 10) + mask16 trail + surrogateOffset) ++ utf16to8 start := by
  simp [utf16to8, h]

lemma utf16to8_end {w : UInt32} (h : isLeadSurrogate (mask16 w)) : utf16to8 [w] = [] := by
  simp [utf16to8, h]

lemma u8enc_basic {c : Char} (h : Basic c) (ws : List UInt32) :
    u8enc (c.val :: ws) = String.utf8EncodeChar c ++ u8enc ws := by
  have hlead : ¬ isLeadSurrogate (mask16 c.val) := by
    rw [mask16_basic h]
    exact not_lead_of_scalar c
  rw [u8enc, utf16to8_cons hlead, mask16_basic h, append_scalar]
  rfl

lemma u8enc_not_basic {c : Char} (hc : ¬ Basic c) {w : List Char}
    (hw : (u8enc (wide w)).length ≤ (utf8 w).length)
    (htail : (u8enc (wide w.tail)).length ≤ (utf8 w.tail).length) :
    (u8enc (wide (c :: w))).length < (utf8 (c :: w)).length := by
  have hfour := utf8Char_of_not_basic hc
  rw [u8enc, wide] at hw htail
  rw [utf8_cons, List.length_append, hfour, wide, List.map_cons, u8enc]
  by_cases hlead : isLeadSurrogate (mask16 c.val)
  · cases w with
    | nil =>
      rw [List.map_nil, utf16to8_end hlead, List.length_nil]
      omega
    | cons d w =>
      have hpos := utf8Char_pos d
      have hle := append_length_le ((mask16 c.val <<< 10) + mask16 d.val + surrogateOffset)
      rw [List.tail_cons] at htail
      rw [utf8_cons, List.length_append, List.map_cons, utf16to8_pair hlead, List.length_append]
      omega
  · have hmask : (mask16 c.val).toNat < 0x10000 := by
      rw [mask16_toNat]
      exact Nat.mod_lt _ (by decide)
    have hlt := append_length_lt hmask
    rw [utf16to8_cons hlead, List.length_append]
    omega

lemma u8enc_length (w : List Char) : (u8enc (wide w)).length ≤ (utf8 w).length ∧
    ((∃ c ∈ w, ¬ Basic c) → (u8enc (wide w)).length < (utf8 w).length) := by
  match w with
  | [] => simp [wide, u8enc, utf16to8]
  | c :: w =>
    have ih := u8enc_length w
    by_cases hc : Basic c
    · rw [wide, List.map_cons, u8enc_basic hc, utf8_cons, List.length_append, List.length_append]
      refine ⟨Nat.add_le_add_left ih.1 _, ?_⟩
      rintro ⟨d, hd, hbasic⟩
      rcases List.mem_cons.mp hd with rfl | hd
      · exact absurd hc hbasic
      · exact Nat.add_lt_add_left (ih.2 ⟨d, hd, hbasic⟩) _
    · have hlt := u8enc_not_basic hc ih.1 (u8enc_length w.tail).1
      exact ⟨hlt.le, fun _ => hlt⟩
termination_by w.length
decreasing_by
  · exact Nat.lt_succ_self _
  · rw [List.length_tail, List.length_cons]
    omega

lemma u8enc_eq_iff (w : List Char) : u8enc (wide w) = utf8 w ↔ ∀ c ∈ w, Basic c := by
  constructor
  · intro h c hc
    by_contra hnot
    exact absurd (congrArg List.length h) ((u8enc_length w).2 ⟨c, hc, hnot⟩).ne
  · intro h
    induction w with
    | nil => rfl
    | cons c w ih =>
      rw [List.forall_mem_cons] at h
      rw [wide, List.map_cons, u8enc_basic h.1, utf8_cons]
      congr 1
      exact ih h.2

def widen (u : List UInt16) : List UInt32 := u.map UInt16.toUInt32

lemma mask16_unit (u : UInt16) : mask16 u.toUInt32 = u.toUInt32 := by
  apply UInt32.toNat_inj.mp
  rw [mask16_toNat, UInt16.toNat_toUInt32]
  exact Nat.mod_eq_of_lt u.toNat_lt

lemma pair_scalar {c : Char} (h : ¬ Basic c) :
    isLeadSurrogate (UInt16.ofNat (0xD800 + (c.toNat - 0x10000) / 0x400)).toUInt32 ∧
      ((UInt16.ofNat (0xD800 + (c.toNat - 0x10000) / 0x400)).toUInt32 <<< 10) +
        (UInt16.ofNat (0xDC00 + (c.toNat - 0x10000) % 0x400)).toUInt32 + surrogateOffset = c.val := by
  have hscalar := scalar c
  rw [Basic] at h
  have hhi : (UInt16.ofNat (0xD800 + (c.toNat - 0x10000) / 0x400)).toUInt32.toNat =
      0xD800 + (c.toNat - 0x10000) / 0x400 := by
    rw [UInt16.toNat_toUInt32, UInt16.toNat_ofNat', Nat.mod_eq_of_lt (by omega)]
  have hlo : (UInt16.ofNat (0xDC00 + (c.toNat - 0x10000) % 0x400)).toUInt32.toNat =
      0xDC00 + (c.toNat - 0x10000) % 0x400 := by
    rw [UInt16.toNat_toUInt32, UInt16.toNat_ofNat', Nat.mod_eq_of_lt (by omega)]
  constructor
  · rw [isLeadSurrogate_iff, hhi]
    omega
  · apply UInt32.toNat_inj.mp
    rw [UInt32.toNat_add, UInt32.toNat_add, UInt32.toNat_shiftLeft, hhi, hlo, Nat.shiftLeft_eq]
    change ((_ * 1024 % 4294967296 + _) % 4294967296 + 0xfca02400) % 4294967296 = c.toNat
    omega

lemma u8enc_utf16 (w : List Char) : u8enc (widen (utf16 w)) = utf8 w := by
  induction w with
  | nil => rfl
  | cons c w ih =>
    rw [utf16_cons, utf8_cons, ← ih, utf16Char]
    split_ifs with h
    · have hunit : (UInt16.ofNat c.toNat).toUInt32 = c.val := by
        apply UInt32.toNat_inj.mp
        rw [UInt16.toNat_toUInt32, UInt16.toNat_ofNat', Nat.mod_eq_of_lt h]
        rfl
      rw [← u8enc_basic h, ← hunit]
      rfl
    · obtain ⟨hlead, hval⟩ := pair_scalar h
      rw [u8enc, widen, List.map_append, List.map_cons, List.map_cons, List.map_nil, List.cons_append,
        List.cons_append, utf16to8_pair (by rwa [mask16_unit]), mask16_unit, mask16_unit, hval,
        append_scalar]
      rfl

end Encode

section Decode

lemma units_basic {cp : UInt32} (h : cp.toNat < 0x10000) : units cp = [cp] := by
  have hle : ¬ 0xffff < cp := by
    rw [UInt32.lt_iff_toNat_lt]
    exact Nat.not_lt.mpr (Nat.le_of_lt_succ h)
  have hcut : cp.toUInt16.toUInt32 = cp := by
    apply UInt32.toNat_inj.mp
    rw [UInt16.toNat_toUInt32, UInt32.toNat_toUInt16]
    exact Nat.mod_eq_of_lt h
  rw [units, if_neg hle, hcut]

lemma trail_bits : ∀ b < 64, mask8 (UInt8.ofNat (b + 0x80)) &&& 0x3f = UInt32.ofNat b ∧
    (mask8 (UInt8.ofNat (b + 0x80)) <<< 6) &&& 0xfff = UInt32.ofNat (b * 64) := by
  decide

lemma lead_two : ∀ a < 32, sequenceLength (UInt8.ofNat (a + 0xc0)) = 2 ∧
    (mask8 (UInt8.ofNat (a + 0xc0)) <<< 6) &&& 0x7ff = UInt32.ofNat (a * 64) := by
  decide

lemma lead_three : ∀ a < 16, sequenceLength (UInt8.ofNat (a + 0xe0)) = 3 ∧
    (mask8 (UInt8.ofNat (a + 0xe0)) <<< 12) &&& 0xffff = UInt32.ofNat (a * 4096) := by
  decide

lemma next_one {n : ℕ} (h : n < 0x80) (it : Bytes) : next (UInt8.ofNat n) it = (UInt32.ofNat n, it) := by
  have hlen : sequenceLength (UInt8.ofNat n) = 1 := by
    rw [sequenceLength, if_pos]
    rw [UInt8.lt_iff_toNat_lt, UInt8.toNat_ofNat', Nat.mod_eq_of_lt (by omega)]
    exact h
  rw [next, hlen]
  refine Prod.ext ?_ rfl
  apply UInt32.toNat_inj.mp
  change (mask8 _).toNat = _
  rw [mask8, UInt8.toNat_toUInt32, UInt8.toNat_ofNat', UInt32.toNat_ofNat', Nat.mod_eq_of_lt (by omega),
    Nat.mod_eq_of_lt (by omega)]

lemma next_two {a b : ℕ} (ha : a < 32) (hb : b < 64) (it : Bytes) :
    next (UInt8.ofNat (a + 0xc0)) (UInt8.ofNat (b + 0x80) :: it) = (UInt32.ofNat (a * 64 + b), it) := by
  rw [next, (lead_two a ha).1]
  change (_ + _, it) = _
  rw [(lead_two a ha).2, UInt32.ofNat_add]
  congr 2
  exact (trail_bits b hb).1

lemma next_three {a b d : ℕ} (ha : a < 16) (hb : b < 64) (hd : d < 64) (it : Bytes) :
    next (UInt8.ofNat (a + 0xe0)) (UInt8.ofNat (b + 0x80) :: UInt8.ofNat (d + 0x80) :: it) =
      (UInt32.ofNat (a * 4096 + b * 64 + d), it) := by
  rw [next, (lead_three a ha).1]
  change (_ + _ + _, it) = _
  rw [(lead_three a ha).2, UInt32.ofNat_add, UInt32.ofNat_add]
  congr 2
  · congr 1
    exact (trail_bits b hb).2
  · exact (trail_bits d hd).1

lemma u8dec_step {b : UInt8} {s rest : Bytes} {n : ℕ} (hn : n < 0x10000)
    (h : next b s = (UInt32.ofNat n, rest)) : u8dec (b :: s) = UInt32.ofNat n :: u8dec rest := by
  have hbasic : (UInt32.ofNat n).toNat < 0x10000 := by
    rw [UInt32.toNat_ofNat', Nat.mod_eq_of_lt (by omega)]
    exact hn
  rw [u8dec, utf8to16, h, units_basic hbasic]
  rfl

lemma u8dec_basic {c : Char} (h : Basic c) (s : Bytes) :
    u8dec (String.utf8EncodeChar c ++ s) = c.val :: u8dec s := by
  have hval : UInt32.ofNat c.toNat = c.val := UInt32.ofNat_toNat
  have hn : c.toNat < 0x10000 := h
  have hle (n : ℕ) : c.val.toNat ≤ n ↔ c.toNat < n + 1 := Nat.lt_succ_iff.symm
  rw [← hval, String.utf8EncodeChar]
  simp only [hle, Nat.reduceAdd]
  split_ifs with h1 h2
  · exact u8dec_step hn (next_one h1 s)
  · have hstep := next_two (a := c.toNat / 64 % 32) (b := c.toNat % 64) (Nat.mod_lt _ (by decide))
      (Nat.mod_lt _ (by decide)) s
    rw [show c.toNat / 64 % 32 * 64 + c.toNat % 64 = c.toNat by omega] at hstep
    exact u8dec_step hn hstep
  · have hstep := next_three (a := c.toNat / 4096 % 16) (b := c.toNat / 64 % 64) (d := c.toNat % 64)
      (Nat.mod_lt _ (by decide)) (Nat.mod_lt _ (by decide)) (Nat.mod_lt _ (by decide)) s
    rw [show c.toNat / 4096 % 16 * 4096 + c.toNat / 64 % 64 * 64 + c.toNat % 64 = c.toNat by omega]
      at hstep
    exact u8dec_step hn hstep

lemma u8dec_utf8 {w : List Char} (h : ∀ c ∈ w, Basic c) : u8dec (utf8 w) = wide w := by
  induction w with
  | nil =>
    change utf8to16 [] = []
    rw [utf8to16]
  | cons c w ih =>
    rw [List.forall_mem_cons] at h
    rw [utf8_cons, u8dec_basic h.1, ih h.2]
    rfl

end Decode

/-- The converters take a `wchar_t` for a unit of UTF-16, and the platforms have it for a scalar value. -/
theorem names_survive_iff (w : List Char) :
    (u8enc (wide w) = utf8 w ∧ u8dec (u8enc (wide w)) = wide w) ↔ ∀ c ∈ w, Basic c := by
  constructor
  · intro h
    exact (u8enc_eq_iff w).mp h.1
  · intro h
    have henc := (u8enc_eq_iff w).mpr h
    refine ⟨henc, ?_⟩
    rw [henc]
    exact u8dec_utf8 h

theorem emoji_lost : ¬ (u8enc (wide [Char.ofNat 0x1F600]) = utf8 [Char.ofNat 0x1F600] ∧
    u8dec (u8enc (wide [Char.ofNat 0x1F600])) = wide [Char.ofNat 0x1F600]) := by
  intro h
  exact absurd h.1 (by decide)

end KbReg.Text
