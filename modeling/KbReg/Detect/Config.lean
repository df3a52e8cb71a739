import KbReg.Host.Transfer
import KbReg.Lib.Keyed

namespace KbReg.Detect

open KbReg KbReg.Host

/-- A node of a TOML document. A leaf is what `value<int64_t>()` and `value_or` make of it. -/
inductive Toml
  | table (entries : List (Bytes × Toml))
  | array (items : List Toml)
  | leaf (int64 : Option ℤ) (string : Option Bytes)

abbrev Table := List (Bytes × Toml)

def ascii (s : String) : Bytes := s.toList.map Char.toUInt8

namespace Toml

def asTable : Toml → Option Table
  | .table entries => some entries
  | _ => none

def asArray : Toml → Option (List Toml)
  | .array items => some items
  | _ => none

def int64 : Toml → Option ℤ
  | .leaf n _ => n
  | _ => none

def valueOr (default : Bytes) : Toml → Bytes
  | .leaf _ (some s) => s
  | _ => default

end Toml

def node (tbl : Table) (key : String) : Option Toml := (Keyed.find Prod.fst (ascii key) tbl).map Prod.snd

def customLoop (vendorId productId : ℤ) : List Toml → Except Stop Bool
  | [] => .ok false
  | i :: keyboards =>
    match i.asTable with
    -- `i.as_table()` gives a null pointer, and the next line of the source reads through it
    | none => .error .nullPointer
    | some keyboard =>
      if (node keyboard "vendor").bind Toml.int64 = some vendorId then
        if (node keyboard "product").bind Toml.int64 = some productId then .ok true
        else customLoop vendorId productId keyboards
      else customLoop vendorId productId keyboards

def isCustomKeyboard (tbl : Table) (vendorId productId : ℤ) : Except Stop Bool :=
  match (node tbl "keyboards").bind Toml.asArray with
  | none => .error .nullPointer
  | some keyboards => customLoop vendorId productId keyboards

def keyTexts (tbl : Table) : Option (List (Bytes × Bytes)) :=
  ((node tbl "keys").bind Toml.asTable).map fun keys => keys.map fun pair => (pair.1, pair.2.valueOr [])

structure Valid (tbl : Table) : Prop where
  keyboards : ∃ items, node tbl "keyboards" = some (.array items) ∧ ∀ i ∈ items, ∃ t, i = .table t
  keys : ∃ entries, node tbl "keys" = some (.table entries) ∧ ∀ pair ∈ entries, pair.1 ≠ []

variable {tbl : Table}

lemma customLoop_total (vendorId productId : ℤ) {items : List Toml}
    (h : ∀ i ∈ items, ∃ t, i = .table t) : ∃ b, customLoop vendorId productId items = .ok b := by
  induction items with
  | nil => exact ⟨false, rfl⟩
  | cons i items ih =>
    obtain ⟨t, rfl⟩ := h i (by simp)
    have hrest := ih fun j hj => h j (List.mem_cons_of_mem _ hj)
    simp only [customLoop, Toml.asTable]
    split_ifs
    · exact ⟨true, rfl⟩
    · exact hrest
    · exact hrest

lemma Valid.isCustomKeyboard (h : Valid tbl) (vendorId productId : ℤ) :
    ∃ b, isCustomKeyboard tbl vendorId productId = .ok b := by
  obtain ⟨items, hitems, htables⟩ := h.keyboards
  simp only [Detect.isCustomKeyboard, hitems, Option.bind_some, Toml.asArray]
  exact customLoop_total vendorId productId htables

lemma Valid.keyTexts (h : Valid tbl) :
    ∃ pairs, keyTexts tbl = some pairs ∧ ∀ pair ∈ pairs, pair.1 ≠ [] := by
  obtain ⟨entries, hentries, hkeys⟩ := h.keys
  refine ⟨entries.map fun pair => (pair.1, pair.2.valueOr []), ?_, ?_⟩
  · simp [Detect.keyTexts, hentries, Toml.asTable]
  · intro pair hm
    obtain ⟨entry, he, rfl⟩ := List.mem_map.mp hm
    exact hkeys entry he

end KbReg.Detect
