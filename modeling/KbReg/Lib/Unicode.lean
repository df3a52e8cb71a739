import Mathlib.Data.List.Flatten
import Mathlib.Tactic.Common

namespace KbReg.Unicode

def utf8 (w : List Char) : List UInt8 := w.flatMap String.utf8EncodeChar

def Basic (c : Char) : Prop := c.toNat < 0x10000

instance (c : Char) : Decidable (Basic c) := inferInstanceAs (Decidable (_ < _))

def utf16Char (c : Char) : List UInt16 :=
  if Basic c then [UInt16.ofNat c.toNat]
  else [UInt16.ofNat (0xD800 + (c.toNat - 0x10000) / 0x400),
    UInt16.ofNat (0xDC00 + (c.toNat - 0x10000) % 0x400)]

def utf16 (w : List Char) : List UInt16 := w.flatMap utf16Char

lemma scalar (c : Char) : c.toNat < 0xD800 ∨ 0xDFFF < c.toNat ∧ c.toNat < 0x110000 := c.valid

lemma utf8_cons (c : Char) (w : List Char) : utf8 (c :: w) = String.utf8EncodeChar c ++ utf8 w := rfl

lemma utf16_cons (c : Char) (w : List Char) : utf16 (c :: w) = utf16Char c ++ utf16 w := rfl

lemma utf8Char_pos (c : Char) : 0 < (String.utf8EncodeChar c).length := by
  rw [String.length_utf8EncodeChar]
  exact c.utf8Size_pos

lemma utf8Char_of_not_basic {c : Char} (h : ¬ Basic c) : (String.utf8EncodeChar c).length = 4 := by
  rw [String.length_utf8EncodeChar, Char.utf8Size_eq_four_iff, UInt32.lt_iff_toNat_lt]
  change 0xffff < c.toNat
  rw [Basic] at h
  omega

end KbReg.Unicode
