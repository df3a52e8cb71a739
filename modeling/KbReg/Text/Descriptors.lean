import KbReg.Text.Utf8

namespace KbReg.Text

open KbReg.Host KbReg.Unicode

def errorIo : ℤ := -1
def errorInvalidParam : ℤ := -2
def dtString : UInt8 := 3
def descHeaderLength : ℤ := 2

/-- The result of a request and the buffer after it. Only as many bytes as the result says are from the
device. -/
structure Reply (length : ℕ) where
  r : ℤ
  buf : ℕ → UInt8
  fits : r ≤ length

structure UsbHandle where
  stringDescriptor : UInt8 → UInt16 → (length : ℕ) → Reply length
  stringDescriptorAscii : UInt8 → (length : ℕ) → Reply length

variable {length : ℕ}

def Reply.bLength (str : Reply length) : UInt8 := str.buf 0

def Reply.bDescriptorType (str : Reply length) : UInt8 := str.buf 1

def Reply.wData (str : Reply length) (i : ℕ) : UInt16 :=
  (str.buf (2 + 2 * i)).toUInt16 ||| ((str.buf (2 + 2 * i + 1)).toUInt16 <<< 8)

inductive Fault
  -- a pair of a code and a null pointer becomes a pair of a code and a string
  | nullString (code : ℤ)
  | lengthError
  deriving DecidableEq, Repr

def srcMax (str : Reply length) : ℤ := ((str.bLength.toNat : ℤ) - 1 - 1).tdiv 2

/-- The constructor of a string from a pointer and a length, which is negative if it is too large. -/
def fromBuffer {α : Type} (buf : ℕ → α) (n : ℤ) : Except Fault (List α) :=
  if n < 0 then .error .lengthError else .ok ((List.range n.toNat).map buf)

def getUtf8String (handle : UsbHandle) (id : UInt8) : Except Fault (ℤ × Bytes) :=
  if id = 0 then .error (.nullString errorInvalidParam)
  else
    let str := handle.stringDescriptor 0 0 4
    if str.r < 0 then .error (.nullString str.r)
    else if str.r ≠ 4 ∨ str.bLength < 4 then .error (.nullString errorIo)
    else if str.bDescriptorType ≠ dtString then .error (.nullString errorIo)
    else
      let langid := str.wData 0
      let str := handle.stringDescriptor id langid 255
      if str.r < 0 then .error (.nullString str.r)
      else if str.r < descHeaderLength ∨ str.r < str.bLength.toNat then .error (.nullString errorIo)
      else if str.bDescriptorType ≠ dtString then .error (.nullString errorIo)
      else do
        let wstr ← fromBuffer (fun i => (str.wData i).toUInt32) (srcMax str)
        pure (0, u8enc wstr)

def getAsciiString (handle : UsbHandle) (id : UInt8) : Except Fault Bytes :=
  let data := handle.stringDescriptorAscii id 256
  fromBuffer data.buf data.r

section Utf8

variable (handle : UsbHandle) (id : UInt8)

def langReply : Reply 4 := handle.stringDescriptor 0 0 4

def stringReply : Reply 255 := handle.stringDescriptor id ((langReply handle).wData 0) 255

structure Accepted : Prop where
  index : id ≠ 0
  lang : (langReply handle).r = 4
  langLength : 4 ≤ (langReply handle).bLength
  langType : (langReply handle).bDescriptorType = dtString
  header : descHeaderLength ≤ (stringReply handle id).r
  length : (stringReply handle id).bLength.toNat ≤ (stringReply handle id).r
  type : (stringReply handle id).bDescriptorType = dtString

def reportedUnits : List UInt16 :=
  (List.range (((stringReply handle id).bLength.toNat - 2) / 2)).map (stringReply handle id).wData

structure Answers : Prop where
  rejects : ¬ Accepted handle id → ∃ code < 0, getUtf8String handle id = .ok (code, [])
  bounds : Accepted handle id → 0 ≤ srcMax (stringReply handle id) ∧ srcMax (stringReply handle id) ≤ 126
  delivered : Accepted handle id →
    ∀ i : ℕ, i < srcMax (stringReply handle id) → 2 + 2 * (i : ℤ) + 1 < (stringReply handle id).r
  accepts : Accepted handle id →
    getUtf8String handle id = .ok (0, u8enc (widen (reportedUnits handle id)))
  encodes : ∀ w, Accepted handle id → reportedUnits handle id = utf16 w →
    getUtf8String handle id = .ok (0, utf8 w)

variable {handle id}

lemma getUtf8String_accepted (h : Accepted handle id) : getUtf8String handle id =
    (fromBuffer (fun i => ((stringReply handle id).wData i).toUInt32) (srcMax (stringReply handle id))).map
      fun wstr => (0, u8enc wstr) := by
  have hlang : ¬ (langReply handle).r < 0 := by
    rw [h.lang]
    decide
  have hlangLength : ¬ ((langReply handle).r ≠ 4 ∨ (langReply handle).bLength < 4) :=
    not_or.mpr ⟨not_not.mpr h.lang, UInt8.not_lt.mpr h.langLength⟩
  have hneg : ¬ (stringReply handle id).r < 0 := by
    have hheader : 2 ≤ (stringReply handle id).r := h.header
    omega
  have hshort : ¬ ((stringReply handle id).r < descHeaderLength ∨
      (stringReply handle id).r < (stringReply handle id).bLength.toNat) :=
    not_or.mpr ⟨not_lt.mpr h.header, not_lt.mpr h.length⟩
  rw [getUtf8String, if_neg h.index]
  dsimp only
  rw [← langReply, if_neg hlang, if_neg hlangLength, if_neg (not_not.mpr h.langType), ← stringReply,
    if_neg hneg, if_neg hshort, if_neg (not_not.mpr h.type)]
  rfl

lemma getUtf8String_rejected (h : ¬ Accepted handle id) :
    ∃ code, getUtf8String handle id = .error (.nullString code) := by
  rw [getUtf8String]
  dsimp only
  rw [← langReply, ← stringReply]
  split_ifs with hid hr hlen htype hr' hlen' htype'
  · exact ⟨_, rfl⟩
  · exact ⟨_, rfl⟩
  · exact ⟨_, rfl⟩
  · exact ⟨_, rfl⟩
  · exact ⟨_, rfl⟩
  · exact ⟨_, rfl⟩
  · exact ⟨_, rfl⟩
  · obtain ⟨hfour, hlangLength⟩ := not_or.mp hlen
    obtain ⟨hheader, hlength⟩ := not_or.mp hlen'
    exact absurd ⟨hid, not_not.mp hfour, UInt8.not_lt.mp hlangLength, not_not.mp htype,
      not_lt.mp hheader, not_lt.mp hlength, not_not.mp htype'⟩ h

lemma srcMax_zero {str : Reply length} (h : str.bLength = 0) : srcMax str = -1 := by
  rw [srcMax, h]
  rfl

lemma srcMax_nonzero {str : Reply length} (h : str.bLength ≠ 0) :
    srcMax str = ((str.bLength.toNat - 2) / 2 : ℕ) := by
  have hpos : 0 < str.bLength.toNat := Nat.pos_of_ne_zero fun he => h (UInt8.toNat_inj.mp he)
  rw [srcMax]
  rcases Nat.lt_or_ge str.bLength.toNat 2 with hone | htwo
  · rw [show str.bLength.toNat = 1 by omega]
    rfl
  · rw [Int.tdiv_eq_ediv_of_nonneg (by omega)]
    omega

lemma srcMax_delivered (h : Accepted handle id) {i : ℕ} (hi : i < srcMax (stringReply handle id)) :
    2 + 2 * (i : ℤ) + 1 < (stringReply handle id).r := by
  have hlength := h.length
  by_cases hzero : (stringReply handle id).bLength = 0
  · rw [srcMax_zero hzero] at hi
    omega
  · rw [srcMax_nonzero hzero] at hi
    omega

lemma answers_of_accepted (h : Accepted handle id) (hpos : (stringReply handle id).bLength ≠ 0) :
    Answers handle id := by
  have hmax := srcMax_nonzero hpos
  have hlength := h.length
  have hbyte := (stringReply handle id).bLength.toNat_lt
  have hresult : getUtf8String handle id = .ok (0, u8enc (widen (reportedUnits handle id))) := by
    rw [getUtf8String_accepted h, fromBuffer, if_neg (by omega), hmax, widen, reportedUnits, List.map_map]
    rfl
  refine ⟨fun hnot => absurd h hnot, fun _ => ⟨?_, ?_⟩, fun _ _ hi => srcMax_delivered h hi,
    fun _ => hresult, ?_⟩
  · omega
  · omega
  · intro w _ hw
    rw [hresult, hw, u8enc_utf16]

lemma accepted_of_answers (h : Answers handle id) :
    Accepted handle id ∧ (stringReply handle id).bLength ≠ 0 := by
  by_cases hacc : Accepted handle id
  · refine ⟨hacc, fun hzero => ?_⟩
    have hmax := (h.bounds hacc).1
    rw [srcMax_zero hzero] at hmax
    exact absurd hmax (by decide)
  · obtain ⟨code, _, hok⟩ := h.rejects hacc
    obtain ⟨fault, herror⟩ := getUtf8String_rejected hacc
    rw [hok] at herror
    cases herror

end Utf8

section Delivered

def Reply.Alike (str str' : Reply length) : Prop :=
  str.r = str'.r ∧ ∀ i : ℕ, (i : ℤ) < str.r → str.buf i = str'.buf i

lemma Reply.Alike.header {str str' : Reply length} (h : str.Alike str') (hr : 2 ≤ str.r) :
    str.bLength = str'.bLength ∧ str.bDescriptorType = str'.bDescriptorType :=
  ⟨h.2 0 (by omega), h.2 1 (by omega)⟩

lemma Reply.Alike.wData {str str' : Reply length} (h : str.Alike str') {i : ℕ}
    (hr : 2 + 2 * (i : ℤ) + 1 < str.r) : str.wData i = str'.wData i := by
  rw [Reply.wData, Reply.wData, h.2 (2 + 2 * i) (by omega), h.2 (2 + 2 * i + 1) (by omega)]

variable {handle handle' : UsbHandle} {id : UInt8}

lemma alike_accepted (hlang : (langReply handle).Alike (langReply handle'))
    (hstring : (stringReply handle id).Alike (stringReply handle' id)) (h : Accepted handle id) :
    Accepted handle' id := by
  have hfour : 2 ≤ (langReply handle).r := by
    rw [h.lang]
    decide
  have hone := hlang.header hfour
  have htwo := hstring.header h.header
  refine ⟨h.index, ?_, ?_, ?_, ?_, ?_, ?_⟩
  · rw [← hlang.1, h.lang]
  · rw [← hone.1]
    exact h.langLength
  · rw [← hone.2, h.langType]
  · rw [← hstring.1]
    exact h.header
  · rw [← hstring.1, ← htwo.1]
    exact h.length
  · rw [← htwo.2, h.type]

theorem undelivered_unread (h : Accepted handle id)
    (hsame : ∀ index langid length, (handle.stringDescriptor index langid length).Alike
      (handle'.stringDescriptor index langid length)) :
    getUtf8String handle id = getUtf8String handle' id := by
  have hlang : (langReply handle).Alike (langReply handle') := hsame 0 0 4
  have hlangid : (langReply handle).wData 0 = (langReply handle').wData 0 := by
    apply hlang.wData
    rw [h.lang]
    decide
  have hstring : (stringReply handle id).Alike (stringReply handle' id) := by
    rw [stringReply, stringReply, ← hlangid]
    exact hsame _ _ _
  have hmax : srcMax (stringReply handle id) = srcMax (stringReply handle' id) := by
    rw [srcMax, srcMax, (hstring.header h.header).1]
  rw [getUtf8String_accepted h, getUtf8String_accepted (alike_accepted hlang hstring h), ← hmax,
    fromBuffer, fromBuffer]
  split_ifs with hneg
  · rfl
  · congr 2
    apply List.map_congr_left
    intro i hi
    have hlt := List.mem_range.mp hi
    rw [hstring.wData (srcMax_delivered h (by omega))]

end Delivered

/-- Each rejection builds a string from a null pointer, and a descriptor of length zero and an error that
is taken for a length make one that is too long. -/
theorem string_readers_iff (handle : UsbHandle) (id : UInt8) :
    (Answers handle id ↔ Accepted handle id ∧ (stringReply handle id).bLength ≠ 0) ∧
      ((∃ s, getAsciiString handle id = .ok s ∧ s.length ≤ 255) ↔
        0 ≤ (handle.stringDescriptorAscii id 256).r ∧ (handle.stringDescriptorAscii id 256).r ≤ 255) := by
  refine ⟨⟨accepted_of_answers, fun h => answers_of_accepted h.1 h.2⟩, ?_⟩
  rw [getAsciiString, fromBuffer]
  split_ifs with hr
  · simp [not_le.mpr hr]
  · simp
    omega

def reply (bytes : Bytes) (length : ℕ) : Reply length :=
  ⟨min bytes.length length, fun i => bytes.getD i 0, Int.min_le_right _ _⟩

-- -9 is the code of a stalled pipe
def stalled (length : ℕ) : Reply length := ⟨-9, fun _ => 0, by omega⟩

def silentHandle : UsbHandle := ⟨fun _ _ => stalled, fun _ => stalled⟩

def emptyHandle : UsbHandle :=
  ⟨fun index _ => reply (if index = 0 then [4, 3, 9, 4] else [0, 3]), fun _ => reply []⟩

theorem string_readers_fault :
    -- a rejected response, a descriptor of length zero, and an error in place of a length
    ¬ Answers silentHandle 1 ∧ ¬ Answers emptyHandle 1 ∧
      ¬ ∃ s, getAsciiString silentHandle 1 = .ok s ∧ s.length ≤ 255 := by
  refine ⟨?_, ?_, ?_⟩
  · intro h
    have hlang := (accepted_of_answers h).1.lang
    cases hlang
  · intro h
    exact absurd rfl (accepted_of_answers h).2
  · rintro ⟨s, ⟨⟩, _⟩

end KbReg.Text
