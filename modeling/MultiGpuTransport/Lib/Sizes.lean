import Mathlib.Data.List.TakeWhile
import Mathlib.Data.Nat.Bitwise
import Mathlib.Order.Bounds.Basic

/-!
# Sizes in C

How C reads an unsigned size from a text, and how it rounds one up to a power of two. strtoull takes
white space, a sign and digits; its value saturates, and a minus sign negates it modulo the word.
-/
namespace MultiGpuTransport.Lib

section Numerals

/-- White space of the C locale. -/
def isSpace (c : Char) : Bool := c = ' ' ∨ (9 ≤ c.toNat ∧ c.toNat ≤ 13)

/-- The parts strtoull tells apart. -/
structure NumeralParts where
  blanks : List Char
  sign : List Char
  digits : List Char
  rest : List Char

def splitSign : List Char → List Char × List Char
  | '+' :: rest => (['+'], rest)
  | '-' :: rest => (['-'], rest)
  | text => ([], text)

def numeralParts (text : List Char) : NumeralParts :=
  let signed := splitSign (text.dropWhile isSpace)
  { blanks := text.takeWhile isSpace
    sign := signed.1
    digits := signed.2.takeWhile Char.isDigit
    rest := signed.2.dropWhile Char.isDigit }

/-- The number a sign and digits stand for in a word of `w` bits. -/
def NumeralParts.value (w : ℕ) (parts : NumeralParts) : ℕ :=
  let magnitude := Nat.ofDigitChars 10 parts.digits 0
  if 2 ^ w ≤ magnitude then 2 ^ w - 1
  else if parts.sign = ['-'] then (2 ^ w - magnitude) % 2 ^ w
  else magnitude

/-- The value strtoull returns in base ten, and how many characters it takes. -/
def strtoull (w : ℕ) (text : List Char) : ℕ × ℕ :=
  let parts := numeralParts text
  if parts.digits = [] then (0, 0)
  else (parts.value w, parts.blanks.length + parts.sign.length + parts.digits.length)

/-- Blanks, perhaps a sign, and digits, with nothing after them. -/
structure IsNumeral (text blanks sign digits : List Char) : Prop where
  text_eq : text = blanks ++ (sign ++ digits)
  space : ∀ c ∈ blanks, isSpace c
  signed : sign = [] ∨ sign = ['+'] ∨ sign = ['-']
  digit : ∀ c ∈ digits, c.isDigit
  digits_ne : digits ≠ []

lemma not_isSpace_of_isDigit {c : Char} (h : c.isDigit) : isSpace c = false := by
  simp only [Char.isDigit, Bool.and_eq_true, decide_eq_true_eq, ge_iff_le, UInt32.le_iff_toNat_le]
    at h
  have hc : 48 ≤ c.toNat := h.1
  have hne : c ≠ ' ' := by
    rintro rfl
    revert hc
    decide
  simp only [isSpace, hne, false_or, decide_eq_false_iff_not, not_and]
  omega

lemma splitSign_append (text : List Char) : (splitSign text).1 ++ (splitSign text).2 = text := by
  unfold splitSign
  split <;> rfl

lemma splitSign_signed (text : List Char) :
    (splitSign text).1 = [] ∨ (splitSign text).1 = ['+'] ∨ (splitSign text).1 = ['-'] := by
  unfold splitSign
  split
  · exact .inr (.inl rfl)
  · exact .inr (.inr rfl)
  · exact .inl rfl

/-- A sign is split off what starts with a digit after it. -/
lemma splitSign_of_signed {sign digits : List Char}
    (hsign : sign = [] ∨ sign = ['+'] ∨ sign = ['-']) (hdigit : ∀ c ∈ digits, c.isDigit) :
    splitSign (sign ++ digits) = (sign, digits) := by
  obtain rfl | rfl | rfl := hsign
  · cases digits with
    | nil => rfl
    | cons c digits =>
      have hc : c.isDigit := hdigit c List.mem_cons_self
      have hplus : c ≠ '+' := by
        rintro rfl
        exact absurd hc (by decide)
      have hminus : c ≠ '-' := by
        rintro rfl
        exact absurd hc (by decide)
      simp [splitSign, hplus, hminus]
  · rfl
  · rfl

/-- The parts put together are the text. -/
lemma numeralParts_append (text : List Char) :
    text = (numeralParts text).blanks ++
      ((numeralParts text).sign ++ ((numeralParts text).digits ++ (numeralParts text).rest)) := by
  simp only [numeralParts, List.takeWhile_append_dropWhile, splitSign_append]

namespace IsNumeral
variable {text blanks sign digits : List Char}

lemma ne_nil (h : IsNumeral text blanks sign digits) : text ≠ [] := by
  rw [h.text_eq]
  simp [h.digits_ne]

/-- A numeral has the parts it is made of. -/
lemma parts (h : IsNumeral text blanks sign digits) :
    numeralParts text = ⟨blanks, sign, digits, []⟩ := by
  have hstart : (sign ++ digits).takeWhile isSpace = [] ∧
      (sign ++ digits).dropWhile isSpace = sign ++ digits := by
    have hdigits := h.digits_ne
    obtain rfl | rfl | rfl := h.signed
    · cases digits with
      | nil => exact absurd rfl hdigits
      | cons c digits => simp [not_isSpace_of_isDigit (h.digit c List.mem_cons_self)]
    · exact ⟨rfl, rfl⟩
    · exact ⟨rfl, rfl⟩
  have hblanks : text.takeWhile isSpace = blanks := by
    rw [h.text_eq, List.takeWhile_append_of_pos h.space, hstart.1, List.append_nil]
  have hsigned : splitSign (text.dropWhile isSpace) = (sign, digits) := by
    rw [h.text_eq, List.dropWhile_append_of_pos h.space, hstart.2]
    exact splitSign_of_signed h.signed h.digit
  have htake : digits.takeWhile Char.isDigit = digits := List.takeWhile_eq_self_iff.mpr h.digit
  have hdrop : digits.dropWhile Char.isDigit = [] := List.dropWhile_eq_nil_iff.mpr h.digit
  simp only [numeralParts, hblanks, hsigned, htake, hdrop]

/-- strtoull takes the whole of a numeral. -/
lemma strtoull (h : IsNumeral text blanks sign digits) (w : ℕ) :
    Lib.strtoull w text = ((⟨blanks, sign, digits, []⟩ : NumeralParts).value w, text.length) := by
  simp only [Lib.strtoull, h.parts, if_neg h.digits_ne]
  rw [h.text_eq]
  simp [Nat.add_assoc]

end IsNumeral

/-- What strtoull takes as a whole is a numeral. -/
lemma isNumeral_of_strtoull {w : ℕ} {text : List Char} (hstart : (strtoull w text).2 ≠ 0)
    (hend : text.length ≤ (strtoull w text).2) :
    IsNumeral text (numeralParts text).blanks (numeralParts text).sign
      (numeralParts text).digits := by
  have hdigits : (numeralParts text).digits ≠ [] := by
    intro h
    simp [strtoull, h] at hstart
  have happend := numeralParts_append text
  have hrest : (numeralParts text).rest = [] := by
    have hlength := congrArg List.length happend
    simp only [List.length_append] at hlength
    simp only [strtoull, if_neg hdigits] at hend
    rw [← List.length_eq_zero_iff]
    omega
  rw [hrest, List.append_nil] at happend
  refine ⟨happend, fun c hc => ?_, splitSign_signed _, fun c hc => ?_, hdigits⟩
  · exact List.mem_takeWhile_imp hc
  · exact List.mem_takeWhile_imp hc

/-- Plain digits are a numeral. -/
lemma IsNumeral.of_digits {digits : List Char} (hne : digits ≠ [])
    (hdigit : ∀ c ∈ digits, c.isDigit) : IsNumeral digits [] [] digits :=
  ⟨rfl, by simp, .inl rfl, hdigit, hne⟩

lemma NumeralParts.value_lt (w : ℕ) (parts : NumeralParts) : parts.value w < 2 ^ w := by
  have hpos : 0 < 2 ^ w := Nat.two_pow_pos w
  unfold NumeralParts.value
  dsimp only
  split
  · omega
  · split
    · exact Nat.mod_lt _ hpos
    · omega

end Numerals

section Alignment

/-- Rounding up is the least multiple from there on. -/
lemma isLeast_roundUp {alignment : ℕ} (hpos : 0 < alignment) (n : ℕ) :
    IsLeast {m : ℕ | alignment ∣ m ∧ n ≤ m} ((n + (alignment - 1)) / alignment * alignment) := by
  have hdiv := Nat.div_add_mod (n + (alignment - 1)) alignment
  have hmod := Nat.mod_lt (n + (alignment - 1)) hpos
  rw [Nat.mul_comm] at hdiv
  refine ⟨⟨Nat.dvd_mul_left _ _, by omega⟩, ?_⟩
  rintro m ⟨⟨k, rfl⟩, hn⟩
  rw [Nat.mul_comm alignment k]
  apply Nat.mul_le_mul_right
  apply Nat.le_of_lt_succ
  rw [Nat.div_lt_iff_lt_mul hpos, Nat.succ_mul, Nat.mul_comm k]
  omega

variable {w : ℕ}

/-- Clearing the low bits of a word rounds it down. -/
lemma toNat_and_not_mask (x mask : BitVec w) (k : ℕ) (hmask : mask.toNat = 2 ^ k - 1) :
    (x &&& ~~~mask).toNat = x.toNat / 2 ^ k * 2 ^ k := by
  apply Nat.eq_of_testBit_eq
  intro i
  have hlow : mask.getLsbD i = decide (i < k) := by
    rw [← BitVec.testBit_toNat, hmask, Nat.testBit_two_pow_sub_one]
  rw [Nat.testBit_mul_two_pow, Nat.testBit_div_two_pow, BitVec.testBit_toNat, BitVec.testBit_toNat,
    BitVec.getLsbD_and, BitVec.getLsbD_not, hlow]
  by_cases hik : k ≤ i
  · by_cases hiw : i < w
    · simp [hik, hiw]
    · simp [BitVec.getLsbD_of_ge x i (by omega), Nat.sub_add_cancel hik]
  · simp [hik, Nat.lt_of_not_le hik]

/-- Rounding a word up to a multiple of the alignment, in the word's arithmetic. -/
def alignUp (alignment x : BitVec w) : BitVec w :=
  (x + alignment - 1#w) &&& ~~~(alignment - 1#w)

section
variable {k : ℕ} (hk : k < w) (x : BitVec w)
include hk

lemma toNat_alignUp :
    (alignUp (BitVec.ofNat w (2 ^ k)) x).toNat =
      (x.toNat + (2 ^ k - 1)) % 2 ^ w / 2 ^ k * 2 ^ k := by
  have hlt : 2 ^ k < 2 ^ w := Nat.pow_lt_pow_right (by omega) hk
  have hpos : 0 < 2 ^ k := Nat.two_pow_pos k
  have halign : (BitVec.ofNat w (2 ^ k)).toNat = 2 ^ k := by
    rw [BitVec.toNat_ofNat, Nat.mod_eq_of_lt hlt]
  have hone : 1#w ≤ BitVec.ofNat w (2 ^ k) := by
    rw [BitVec.le_def, halign, BitVec.toNat_ofNat, Nat.mod_eq_of_lt (by omega)]
    exact hpos
  have hmask : (BitVec.ofNat w (2 ^ k) - 1#w).toNat = 2 ^ k - 1 := by
    rw [BitVec.toNat_sub_of_le hone, halign, BitVec.toNat_ofNat, Nat.mod_eq_of_lt (by omega)]
  have hsum : x + BitVec.ofNat w (2 ^ k) - 1#w = x + (BitVec.ofNat w (2 ^ k) - 1#w) := by
    rw [BitVec.sub_eq_add_neg, BitVec.sub_eq_add_neg, BitVec.add_assoc]
  unfold alignUp
  rw [toNat_and_not_mask _ _ k hmask, hsum, BitVec.toNat_add, hmask]

/-- It is the least multiple from the word on exactly when that multiple is a word. -/
lemma isLeast_alignUp_iff :
    IsLeast {m : ℕ | 2 ^ k ∣ m ∧ x.toNat ≤ m} (alignUp (BitVec.ofNat w (2 ^ k)) x).toNat ↔
      x.toNat ≤ 2 ^ w - 2 ^ k := by
  have hlt : 2 ^ k < 2 ^ w := Nat.pow_lt_pow_right (by omega) hk
  have hpos : 0 < 2 ^ k := Nat.two_pow_pos k
  have hx : x.toNat < 2 ^ w := x.isLt
  rw [toNat_alignUp hk]
  constructor
  · intro hleast
    by_contra hbig
    have hwraps : (x.toNat + (2 ^ k - 1)) % 2 ^ w = x.toNat + (2 ^ k - 1) - 2 ^ w := by
      rw [Nat.mod_eq_sub_mod (by omega), Nat.mod_eq_of_lt (by omega)]
    have hzero : (x.toNat + (2 ^ k - 1) - 2 ^ w) / 2 ^ k = 0 := Nat.div_eq_of_lt (by omega)
    have hle := hleast.1.2
    rw [hwraps, hzero] at hle
    omega
  · intro hfits
    rw [Nat.mod_eq_of_lt (by omega)]
    exact isLeast_roundUp hpos x.toNat

end

end Alignment

end MultiGpuTransport.Lib
