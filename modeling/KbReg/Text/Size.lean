import KbReg.Text.Checked
import KbReg.Text.Descriptors

namespace KbReg.Text

open KbReg.Host KbReg.Unicode

lemma utf8Char_append_ne_nil (c : Char) (rest : Bytes) : String.utf8EncodeChar c ++ rest ≠ [] :=
  List.append_ne_nil_of_left_ne_nil String.utf8EncodeChar_ne_nil rest

lemma checkedNext_char (c : Char) (rest : Bytes) :
    checkedNext (String.utf8EncodeChar c ++ rest) = .ok (c.val, rest) := by
  rw [checkedNext, validateNext_char]
  rfl

lemma checkedNext_blames {it : Bytes} {e : UtfError} (h : Blames it e) :
    checkedNext it = .error (thrown it e) := by
  rw [checkedNext, validateNext_error h]
  rfl

lemma checkedNext_shortens {it : Bytes} {r : UInt32 × Bytes} (h : checkedNext it = .ok r) :
    r.2.length < it.length := by
  cases it with
  | nil => cases h
  | cons lead it =>
    rcases char_or_blames lead it with ⟨c, rest, hc⟩ | ⟨e, he⟩
    · rw [hc, checkedNext_char] at h
      cases h
      have hpos := utf8Char_pos c
      change rest.length < _
      rw [hc, List.length_append]
      omega
    · rw [checkedNext_blames he] at h
      cases h

def distance (it : Bytes) : Except Exception ℕ :=
  if it = [] then .ok 0
  else match h : checkedNext it with
    | .error e => .error e
    | .ok r => (distance r.2).map (· + 1)
termination_by it.length
decreasing_by exact checkedNext_shortens h

def u8size (s : Bytes) : Except Exception ℕ := distance s

lemma distance_char (c : Char) (rest : Bytes) :
    distance (String.utf8EncodeChar c ++ rest) = (distance rest).map (· + 1) := by
  rw [distance, if_neg (utf8Char_append_ne_nil c rest)]
  have hnext := checkedNext_char c rest
  split
  · rename_i e he
    rw [hnext] at he
    cases he
  · rename_i r hr
    rw [hnext] at hr
    cases hr
    rfl

lemma distance_blames {it : Bytes} {e : UtfError} (hne : it ≠ []) (h : Blames it e) :
    distance it = .error (thrown it e) := by
  rw [distance, if_neg hne]
  have hnext := checkedNext_blames h
  split
  · rename_i e' he
    rw [hnext] at he
    cases he
    rfl
  · rename_i r hr
    rw [hnext] at hr
    cases hr

lemma distance_utf8 (w : List Char) (rest : Bytes) :
    distance (utf8 w ++ rest) = (distance rest).map (· + w.length) := by
  induction w with
  | nil =>
    rw [show utf8 [] ++ rest = rest from rfl]
    cases distance rest <;> rfl
  | cons c w ih =>
    rw [utf8_cons, List.append_assoc, distance_char, ih, List.length_cons]
    cases distance rest <;> rfl

lemma text_or_fault (s : Bytes) : (∃ w, s = utf8 w) ∨
    ∃ w it e, it ≠ [] ∧ Blames it e ∧ s = utf8 w ++ it := by
  induction s using (measure List.length).wf.induction with
  | h s ih =>
    cases s with
    | nil => exact Or.inl ⟨[], rfl⟩
    | cons lead it =>
      rcases char_or_blames lead it with ⟨c, rest, hc⟩ | ⟨e, he⟩
      · have hshort : rest.length < (lead :: it).length := by
          have hpos := utf8Char_pos c
          rw [hc, List.length_append]
          omega
        rw [hc]
        rcases ih rest hshort with ⟨w, rfl⟩ | ⟨w, it', e, hne, he, rfl⟩
        · exact Or.inl ⟨c :: w, rfl⟩
        · exact Or.inr ⟨c :: w, it', e, hne, he, by rw [utf8_cons, List.append_assoc]⟩
      · exact Or.inr ⟨[], lead :: it, e, List.cons_ne_nil _ _, he, rfl⟩

lemma distance_error {w : List Char} {it : Bytes} {e : UtfError} (hne : it ≠ []) (he : Blames it e) :
    distance (utf8 w ++ it) = .error (thrown it e) := by
  rw [distance_utf8, distance_blames hne he]
  rfl

lemma distance_ok (w : List Char) : distance (utf8 w) = .ok w.length := by
  have hnil : distance [] = .ok 0 := by rw [distance, if_pos rfl]
  have hall := distance_utf8 w []
  rw [List.append_nil, hnil] at hall
  rw [hall]
  exact congrArg Except.ok (Nat.zero_add _)

lemma distance_ok_iff (s : Bytes) (n : ℕ) : distance s = .ok n ↔ ∃ w, s = utf8 w ∧ w.length = n := by
  constructor
  · intro h
    rcases text_or_fault s with ⟨w, rfl⟩ | ⟨w, it, e, hne, he, rfl⟩
    · rw [distance_ok] at h
      exact ⟨w, rfl, Except.ok.inj h⟩
    · rw [distance_error hne he] at h
      cases h
  · rintro ⟨w, rfl, rfl⟩
    exact distance_ok w

theorem u8size_iff (s : Bytes) : (∀ n, u8size s = .ok n ↔ ∃ w, s = utf8 w ∧ w.length = n) ∧
    ∀ x, u8size s = .error x ↔
      ∃ w it e, it ≠ [] ∧ Blames it e ∧ s = utf8 w ++ it ∧ x = thrown it e := by
  refine ⟨distance_ok_iff s, fun x => ⟨fun h => ?_, ?_⟩⟩
  · rw [u8size] at h
    rcases text_or_fault s with ⟨w, rfl⟩ | ⟨w, it, e, hne, he, rfl⟩
    · rw [distance_ok] at h
      cases h
    · rw [distance_error hne he] at h
      exact ⟨w, it, e, hne, he, rfl, (Except.error.inj h).symm⟩
  · rintro ⟨w, it, e, hne, he, rfl, rfl⟩
    exact distance_error hne he

lemma cut_char (c : Char) (rest : Bytes) {n : ℕ} (hpos : 0 < n)
    (hlt : n < (String.utf8EncodeChar c).length) :
    distance ((String.utf8EncodeChar c ++ rest).take n) = .error .notEnoughRoom := by
  obtain ⟨lead, trails, hc, hlead, ht, _, _⟩ := sequence_of_char c
  obtain ⟨k, rfl⟩ : ∃ k, n = k + 1 := ⟨n - 1, by omega⟩
  rw [hc, List.length_cons] at hlt
  have htake : (String.utf8EncodeChar c ++ rest).take (k + 1) = lead :: trails.take k := by
    rw [hc, List.cons_append, List.take_succ_cons, List.take_append_of_le_length (by omega)]
  have hshort : (trails.take k).length + 1 < sequenceLength lead := by
    rw [List.length_take_of_le (by omega)]
    omega
  rw [htake]
  exact distance_blames (List.cons_ne_nil _ _)
    (.notEnoughRoom hshort fun b hb => ht b (List.mem_of_mem_take hb))

theorem u8size_cut (w : List Char) (n : ℕ) :
    u8size ((utf8 w).take n) = .error .notEnoughRoom ∧ (∀ v, (utf8 w).take n ≠ utf8 v) ∨
      ∃ v, v <+: w ∧ (utf8 w).take n = utf8 v ∧ u8size ((utf8 w).take n) = .ok v.length := by
  rw [u8size]
  induction w generalizing n with
  | nil =>
    have hnil : (utf8 []).take n = utf8 [] := List.take_nil
    exact Or.inr ⟨[], List.prefix_rfl, hnil, by rw [hnil, distance_ok]⟩
  | cons c w ih =>
    rw [utf8_cons]
    rcases Nat.lt_or_ge n (String.utf8EncodeChar c).length with hlt | hle
    · rcases Nat.eq_zero_or_pos n with rfl | hpos
      · exact Or.inr ⟨[], List.nil_prefix, rfl, distance_ok []⟩
      · have hcut := cut_char c (utf8 w) hpos hlt
        refine Or.inl ⟨hcut, fun v hv => ?_⟩
        rw [hv, distance_ok] at hcut
        cases hcut
    · have htake : (String.utf8EncodeChar c ++ utf8 w).take n =
          String.utf8EncodeChar c ++ (utf8 w).take (n - (String.utf8EncodeChar c).length) := by
        rw [List.take_append, List.take_of_length_le hle]
      rw [htake, distance_char]
      rcases ih (n - (String.utf8EncodeChar c).length) with ⟨herror, hnone⟩ | ⟨v, hv, htext, hok⟩
      · rw [herror]
        refine Or.inl ⟨rfl, fun v hv => ?_⟩
        have hsize := distance_ok v
        rw [← hv, distance_char, herror] at hsize
        cases hsize
      · refine Or.inr ⟨c :: v, List.cons_prefix_cons.mpr ⟨rfl, hv⟩, by rw [htext, utf8_cons], ?_⟩
        rw [hok]
        rfl

section RoundTrip

lemma ok_of_bind {ε α β : Type} {x : Except ε α} {f : α → Except ε β} {b : β} (h : x >>= f = .ok b) :
    ∃ a, x = .ok a ∧ f a = .ok b := by
  cases x with
  | error e => cases h
  | ok a => exact ⟨a, rfl, h⟩

lemma cons_of_increaseSafely {it : Bytes} {r : UInt8 × Bytes} (h : increaseSafely it = .ok r) :
    it = r.1 :: r.2 := by
  cases it with
  | nil => cases h
  | cons b it =>
    rw [increaseSafely] at h
    split_ifs at h
    cases h
    rfl

lemma next_of_sequence {b : UInt8} {it : Bytes} {r : UInt32 × Bytes} (h : getSequence b it = .ok r) :
    next b it = r := by
  have hcases : sequenceLength b = 0 ∨ sequenceLength b = 1 ∨ sequenceLength b = 2 ∨
      sequenceLength b = 3 ∨ sequenceLength b = 4 := by
    have hrange := lead_range _ (rfl : sequenceLength b = sequenceLength b)
    omega
  rcases hcases with hb | hb | hb | hb | hb
  · rw [getSequence, hb] at h
    cases h
  · rw [getSequence, hb] at h
    cases h
    simp only [next, hb]
  · rw [getSequence, hb] at h
    change getSequence2 b it = _ at h
    rw [getSequence2] at h
    obtain ⟨c, hc, hlast⟩ := ok_of_bind h
    obtain rfl := cons_of_increaseSafely hc
    cases hlast
    simp only [next, hb]
    rfl
  · rw [getSequence, hb] at h
    change getSequence3 b it = _ at h
    rw [getSequence3] at h
    obtain ⟨c, hc, hnext⟩ := ok_of_bind h
    obtain ⟨d, hd, hlast⟩ := ok_of_bind hnext
    obtain rfl := cons_of_increaseSafely hc
    rw [cons_of_increaseSafely hd]
    cases hlast
    simp only [next, hb]
    rfl
  · rw [getSequence, hb] at h
    change getSequence4 b it = _ at h
    rw [getSequence4] at h
    obtain ⟨c, hc, hnext⟩ := ok_of_bind h
    obtain ⟨d, hd, hnext⟩ := ok_of_bind hnext
    obtain ⟨e, he, hlast⟩ := ok_of_bind hnext
    obtain rfl := cons_of_increaseSafely hc
    rw [cons_of_increaseSafely hd, cons_of_increaseSafely he]
    cases hlast
    simp only [next, hb]
    rfl

lemma next_char {c : Char} {b : UInt8} {it rest : Bytes}
    (h : b :: it = String.utf8EncodeChar c ++ rest) : next b it = (c.val, rest) := by
  have hvalid := validateNext_char c rest
  rw [← h, validateNext] at hvalid
  obtain ⟨⟨cp, rest'⟩, hr, hcheck⟩ := ok_of_bind hvalid
  rw [next_of_sequence hr]
  simp only at hcheck
  split_ifs at hcheck
  exact Except.ok.inj hcheck

lemma units_char (c : Char) : units c.val = widen (utf16Char c) := by
  by_cases h : Basic c
  · have hunit : (UInt16.ofNat c.toNat).toUInt32 = c.val := by
      apply UInt32.toNat_inj.mp
      rw [UInt16.toNat_toUInt32, UInt16.toNat_ofNat', Nat.mod_eq_of_lt h]
      rfl
    rw [units_basic h, utf16Char, if_pos h, widen, List.map_singleton, hunit]
  · have hscalar := scalar c
    have hbig : ¬ c.toNat < 0x10000 := h
    have hlt : 0xffff < c.val := by
      rw [UInt32.lt_iff_toNat_lt]
      change 65535 < c.toNat
      omega
    rw [units, if_pos hlt, utf16Char, if_neg h, widen, List.map_cons, List.map_singleton]
    refine congrArg₂ _ ?_ (congrArg (fun u => [u]) ?_)
    · apply UInt32.toNat_inj.mp
      rw [UInt16.toNat_toUInt32, UInt16.toNat_toUInt32, UInt32.toNat_toUInt16, UInt16.toNat_ofNat',
        UInt32.toNat_add, UInt32.toNat_shiftRight, Nat.shiftRight_eq_div_pow]
      change (c.toNat / 1024 + 0xd7c0) % _ % _ = _
      omega
    · apply UInt32.toNat_inj.mp
      rw [UInt16.toNat_toUInt32, UInt16.toNat_toUInt32, UInt32.toNat_toUInt16, UInt16.toNat_ofNat',
        UInt32.toNat_add, UInt32.toNat_and]
      rw [show (0x3ff : UInt32).toNat = 2 ^ 10 - 1 from rfl, Nat.and_two_pow_sub_one_eq_mod]
      change (c.toNat % 1024 + 0xdc00) % _ % _ = _
      omega

lemma u8dec_char (c : Char) (rest : Bytes) :
    u8dec (String.utf8EncodeChar c ++ rest) = widen (utf16Char c) ++ u8dec rest := by
  cases hc : String.utf8EncodeChar c ++ rest with
  | nil => exact absurd hc (utf8Char_append_ne_nil c rest)
  | cons b it =>
    rw [u8dec, utf8to16, next_char hc.symm, units_char]
    rfl

lemma u8dec_text (w : List Char) : u8dec (utf8 w) = widen (utf16 w) := by
  induction w with
  | nil =>
    change utf8to16 [] = []
    rw [utf8to16]
  | cons c w ih =>
    rw [utf8_cons, u8dec_char, ih, utf16_cons, widen, widen, widen, List.map_append]

theorem bytes_survive (s : Bytes) (n : ℕ) (h : u8size s = .ok n) :
    u8enc (u8dec s) = s ∧ ∃ w : List Char, s = utf8 w ∧ w.length = n ∧ u8dec s = widen (utf16 w) := by
  obtain ⟨w, rfl, hlen⟩ := (distance_ok_iff s n).mp h
  refine ⟨?_, w, rfl, hlen, u8dec_text w⟩
  rw [u8dec_text, u8enc_utf16]

theorem bytes_survive_emoji : u8enc (u8dec [0xF0, 0x9F, 0x98, 0x80]) = [0xF0, 0x9F, 0x98, 0x80] :=
  (bytes_survive [0xF0, 0x9F, 0x98, 0x80] 1 (distance_ok [Char.ofNat 0x1F600])).1

theorem device_string_survives (handle : UsbHandle) (id : UInt8) (w : List Char)
    (h : Accepted handle id) (hpos : (stringReply handle id).bLength ≠ 0)
    (hw : reportedUnits handle id = utf16 w) : ∃ s, getUtf8String handle id = .ok (0, s) ∧
      u8size s = .ok w.length ∧ u8dec s = widen (reportedUnits handle id) :=
  ⟨utf8 w, (answers_of_accepted h hpos).encodes w h hw, distance_ok w, by rw [u8dec_text, hw]⟩

def emojiHandle : UsbHandle :=
  ⟨fun index _ => reply (if index = 0 then [4, 3, 9, 4] else [6, 3, 0x3D, 0xD8, 0x00, 0xDE]), fun _ => reply []⟩

theorem device_string_survives_emoji : ∃ s, getUtf8String emojiHandle 1 = .ok (0, s) ∧
    u8size s = .ok 1 ∧ u8dec s = widen (reportedUnits emojiHandle 1) :=
  device_string_survives emojiHandle 1 [Char.ofNat 0x1F600]
    ⟨by decide, rfl, by decide, rfl, by decide, by decide, rfl⟩ (by decide) (by decide)

end RoundTrip

end KbReg.Text
