import LanguageServer.Frame
import LanguageServer.Wire.Item
/-!
# Decimal numerals

A size that is written in decimal digits is read back (`size?_decimal`), and the numbers of
completion items are in the order of their texts as long as they have four digits
(`sortText_lt_sortText`).
-/

namespace LanguageServer

namespace Json

theorem bounds_of_isDigit {c : Char} (h : isDigit c = true) : 48 ≤ c.toNat ∧ c.toNat ≤ 57 := by
  have bounds : '0' ≤ c ∧ c ≤ '9' := by simpa [isDigit] using h
  exact bounds

theorem not_isWhiteSpace_of_isDigit {c : Char} (h : isDigit c = true) :
    Unicode.isWhiteSpace c = false := by
  obtain ⟨low, high⟩ := bounds_of_isDigit h
  refine Bool.eq_false_iff.mpr fun blank => ?_
  have code := Unicode.toNat_mem_of_isWhiteSpace blank
  simp only [Unicode.whiteSpaceCodes, List.mem_cons, List.not_mem_nil, or_false] at code
  omega

theorem isDigit_of_mem_decimal {n : Nat} {c : Char} (h : c ∈ decimal n) : isDigit c = true :=
  Nat.isDigit_of_mem_toDigits (by decide) (by decide) h

theorem decimal_ne_nil (n : Nat) : decimal n ≠ [] := Nat.toDigits_ne_nil

theorem decimal_of_lt {n : Nat} (h : n < 10) : decimal n = [n.digitChar] :=
  Nat.toDigits_of_lt_base h

theorem decimal_of_le {n : Nat} (h : 10 ≤ n) :
    decimal n = decimal (n / 10) ++ [(n % 10).digitChar] :=
  Nat.toDigits_of_base_le (by decide) h

theorem foldl_eq_ofDigitChars (digits : List Char) :
    digits.foldl (fun n d => n * 10 + digitValue d) 0 = Nat.ofDigitChars 10 digits 0 := by
  simp only [Nat.ofDigitChars_eq_foldl, digitValue, Nat.mul_comm]

/-- The digits of a number add up to it. -/
theorem ofDigitChars_decimal (n : Nat) : Nat.ofDigitChars 10 (decimal n) 0 = n :=
  Nat.ofDigitChars_ten_toDigits

end Json

namespace Frame

/-- A size is read from its digits, with or without a plus sign in front, if it is below 2⁶⁴. -/
theorem size?_eq_some_iff {chars : List Char} {n : Nat} :
    size? chars = some n ↔ ∃ sign digits, chars = sign ++ digits ∧ (sign = [] ∨ sign = ['+']) ∧
      digits ≠ [] ∧ (∀ d ∈ digits, Json.isDigit d = true) ∧ Nat.ofDigitChars 10 digits 0 = n ∧
      n < 0x10000000000000000 := by
  -- what is read from the digits behind a sign
  have digits_iff : ∀ digits : List Char,
      (if digits ≠ [] ∧ digits.all Json.isDigit then
        let n := digits.foldl (fun n d => n * 10 + Json.digitValue d) 0
        if n < 0x10000000000000000 then some n else none
      else none) = some n ↔ digits ≠ [] ∧ (∀ d ∈ digits, Json.isDigit d = true) ∧
        Nat.ofDigitChars 10 digits 0 = n ∧ n < 0x10000000000000000 := by
    intro digits
    rw [Json.foldl_eq_ofDigitChars]
    grind
  unfold size?
  dsimp only
  split
  · rename_i rest
    rw [digits_iff]
    constructor
    · rintro ⟨nonempty, all, value⟩
      exact ⟨['+'], rest, rfl, .inr rfl, nonempty, all, value⟩
    · rintro ⟨sign, digits, parts, rfl | rfl, nonempty, all, value⟩
      · -- no digit is a sign
        obtain rfl : '+' :: rest = digits := parts
        exact absurd (all '+' List.mem_cons_self) (by decide)
      · obtain rfl : rest = digits := (List.cons.inj parts).2
        exact ⟨nonempty, all, value⟩
  · rename_i unsigned
    rw [digits_iff]
    constructor
    · rintro ⟨nonempty, all, value⟩
      exact ⟨[], chars, rfl, .inl rfl, nonempty, all, value⟩
    · rintro ⟨sign, digits, parts, rfl | rfl, nonempty, all, value⟩
      · obtain rfl : chars = digits := parts
        exact ⟨nonempty, all, value⟩
      · exact absurd parts (unsigned digits)

theorem size?_decimal {n : Nat} (h : n < 0x10000000000000000) :
    size? (Json.decimal n) = some n :=
  size?_eq_some_iff.mpr ⟨[], Json.decimal n, rfl, .inl rfl, Json.decimal_ne_nil n,
    fun _ => Json.isDigit_of_mem_decimal, Json.ofDigitChars_decimal n, h⟩

end Frame

namespace Candidate

/-- The four digits of a number below ten thousand, zeros first. -/
theorem toList_sortText {n : Nat} (h : n < 10000) :
    (sortText n).toList =
      [n / 1000, n / 100 % 10, n / 10 % 10, n % 10].map Nat.digitChar := by
  have zero : Nat.digitChar 0 = '0' := rfl
  unfold sortText
  rw [String.toList_ofList]
  by_cases one : n < 10
  · have parts : n / 1000 = 0 ∧ n / 100 % 10 = 0 ∧ n / 10 % 10 = 0 ∧ n % 10 = n := by omega
    obtain ⟨a, b, c, d⟩ := parts
    rw [a, b, c, d, Json.decimal_of_lt one]
    rfl
  · rw [Json.decimal_of_le (Nat.le_of_not_lt one)]
    by_cases two : n < 100
    · have parts : n / 1000 = 0 ∧ n / 100 % 10 = 0 ∧ n / 10 % 10 = n / 10 := by omega
      obtain ⟨a, b, c⟩ := parts
      rw [a, b, c, Json.decimal_of_lt (by omega)]
      rfl
    · rw [Json.decimal_of_le (by omega : 10 ≤ n / 10)]
      by_cases three : n < 1000
      · have parts : n / 1000 = 0 ∧ n / 100 % 10 = n / 10 / 10 := by omega
        obtain ⟨a, b⟩ := parts
        rw [a, b, Json.decimal_of_lt (by omega)]
        rfl
      · rw [Json.decimal_of_le (by omega : 10 ≤ n / 10 / 10), Json.decimal_of_lt (by omega)]
        have parts : n / 1000 = n / 10 / 10 / 10 ∧ n / 100 % 10 = n / 10 / 10 % 10 := by omega
        obtain ⟨a, b⟩ := parts
        rw [a, b]
        rfl

theorem digitChar_lt_digitChar : ∀ i j, i < j → j < 10 → Nat.digitChar i < Nat.digitChar j := by
  have small : ∀ j, j < 10 → ∀ i, i < j → Nat.digitChar i < Nat.digitChar j := by decide
  exact fun i j less bound => small j bound i less

/-- Numbers of four digits are in the order of their texts. -/
theorem sortText_lt_sortText {i j : Nat} (less : i < j) (bound : j < 10000) :
    sortText i < sortText j := by
  rw [String.lt_iff, toList_sortText (by omega), toList_sortText bound]
  simp only [List.map_cons, List.map_nil, List.cons_lt_cons_iff]
  -- the first place at which the digits differ
  have places : i / 1000 < j / 1000 ∨ i / 1000 = j / 1000 ∧
      (i / 100 % 10 < j / 100 % 10 ∨ i / 100 % 10 = j / 100 % 10 ∧
        (i / 10 % 10 < j / 10 % 10 ∨ i / 10 % 10 = j / 10 % 10 ∧ i % 10 < j % 10)) := by
    omega
  rcases places with first | ⟨a, second | ⟨b, third | ⟨c, fourth⟩⟩⟩
  · exact .inl (digitChar_lt_digitChar _ _ first (by omega))
  · exact .inr ⟨by rw [a], .inl (digitChar_lt_digitChar _ _ second (by omega))⟩
  · exact .inr ⟨by rw [a], .inr ⟨by rw [b], .inl (digitChar_lt_digitChar _ _ third (by omega))⟩⟩
  · exact .inr ⟨by rw [a], .inr ⟨by rw [b], .inr ⟨by rw [c],
      .inl (digitChar_lt_digitChar _ _ fourth (by omega))⟩⟩⟩

end Candidate

end LanguageServer
