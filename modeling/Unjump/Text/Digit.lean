import Unjump.Machine.Register

/-!
# Decimal digits and numerals

A listing may contain any decimal digit of Unicode (general category `Nd`) where a number is
expected, and only then is the number asked to be a word written in the ASCII digits `0` to `9`.
Keeping the two apart decides which fault a line is blamed for.

The digits of category `Nd` come in runs of ten, a zero first, so the table lists the zeros.
-/

namespace Unjump.Text

/-! ## Digits -/

/-- The code points of the zeros of all decimal digit systems, in increasing order. -/
def digitZeros : List Nat :=
  [0x30, 0x660, 0x6F0, 0x7C0, 0x966, 0x9E6, 0xA66, 0xAE6, 0xB66, 0xBE6, 0xC66, 0xCE6, 0xD66,
    0xDE6, 0xE50, 0xED0, 0xF20, 0x1040, 0x1090, 0x17E0, 0x1810, 0x1946, 0x19D0, 0x1A80, 0x1A90,
    0x1B50, 0x1BB0, 0x1C40, 0x1C50, 0xA620, 0xA8D0, 0xA900, 0xA9D0, 0xA9F0, 0xAA50, 0xABF0,
    0xFF10, 0x104A0, 0x10D30, 0x10D40, 0x11066, 0x110F0, 0x11136, 0x111D0, 0x112F0, 0x11450,
    0x114D0, 0x11650, 0x116C0, 0x116D0, 0x116DA, 0x11730, 0x118E0, 0x11950, 0x11BF0, 0x11C50,
    0x11D50, 0x11DA0, 0x11F50, 0x16130, 0x16A60, 0x16AC0, 0x16B50, 0x16D70, 0x1CCF0, 0x1D7CE,
    0x1D7D8, 0x1D7E2, 0x1D7EC, 0x1D7F6, 0x1E140, 0x1E2F0, 0x1E4F0, 0x1E5F1, 0x1E950, 0x1FBF0]

/-- Decimal digits of any script. -/
def isDecimalDigit (c : Char) : Bool :=
  digitZeros.any fun z ↦ z ≤ c.toNat && c.toNat < z + 10

/-- The ASCII digits are decimal digits. -/
theorem isDecimalDigit_of_isDigit {c : Char} (h : c.isDigit) : isDecimalDigit c := by
  simp only [Char.isDigit, ge_iff_le, Bool.and_eq_true, decide_eq_true_eq] at h
  refine List.any_eq_true.mpr ⟨0x30, by decide, ?_⟩
  have h1 : ('0' : Char).val.toNat ≤ c.val.toNat := UInt32.le_iff_toNat_le.mp h.1
  have h2 : c.val.toNat ≤ ('9' : Char).val.toNat := UInt32.le_iff_toNat_le.mp h.2
  have h3 : ('0' : Char).val.toNat = 48 := rfl
  have h4 : ('9' : Char).val.toNat = 57 := rfl
  simp only [Bool.and_eq_true, decide_eq_true_eq, Char.toNat]
  omega

/-! ## Numerals -/

/-- The word that a run of ASCII digits denotes, when it denotes one. -/
def word? (digits : List Char) : Option Word :=
  if digits.all Char.isDigit && !digits.isEmpty then
    let n := Nat.ofDigitChars 10 digits 0
    if n ≤ Int64.maxValue.toInt then some (Int64.ofNat n) else none
  else none

end Unjump.Text
