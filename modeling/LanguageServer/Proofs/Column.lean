import LanguageServer.Proofs.Utf16
import LanguageServer.Proofs.Utf8
/-!
# Columns, bytes and code units

Three measures of one text: its UTF-16 code units (`Utf16.encode`), its UTF-8 bytes (`Utf8.encode`)
and its characters. A column is turned into a byte or into a number of characters by the characters
before it, and a parting of the characters is seen in all three measures at once:

* bytes are parted between characters at their boundaries (`isValid_iff`), and then the first bytes
  encode the first characters (`firstBytes?_append`);
* code units are parted between characters at every column up to their end but those within a
  surrogate pair (`splitAt?_eq_none_iff`, `splitsPair_iff`).

So one walk over the characters that counts code units and bytes finds the byte of a column
(`byteOffset?_eq_walk`). The main statement is `columns_of_bytes`.
-/

namespace LanguageServer.Utf16

/-! ## Code units -/

/-- The code units of a character: its own number, or a surrogate pair that carries ten bits in
each half. -/
def encodeChar (c : Char) : List UInt16 :=
  if c.toNat ≤ 0xFFFF then [.ofNat c.toNat]
  else
    [.ofNat (0xD800 + (c.toNat - 0x10000) / 0x400), .ofNat (0xDC00 + (c.toNat - 0x10000) % 0x400)]

def encode (chars : List Char) : List UInt16 := chars.flatMap encodeChar

/-- The first half of a surrogate pair. -/
def IsHigh (unit : UInt16) : Prop := 0xD800 ≤ unit.toNat ∧ unit.toNat < 0xDC00

/-- The second half of a surrogate pair. -/
def IsLow (unit : UInt16) : Prop := 0xDC00 ≤ unit.toNat ∧ unit.toNat < 0xE000

/-- The place after the first `column` code units lies within a surrogate pair. -/
def SplitsPair (codeUnits : List UInt16) (column : Nat) : Prop :=
  ∃ front high low back,
    codeUnits = front ++ high :: low :: back ∧ front.length + 1 = column ∧ IsHigh high ∧ IsLow low

@[simp] theorem encode_nil : encode [] = [] := rfl

@[simp] theorem encode_cons (c : Char) (rest : List Char) :
    encode (c :: rest) = encodeChar c ++ encode rest := rfl

@[simp] theorem encode_append (front back : List Char) :
    encode (front ++ back) = encode front ++ encode back :=
  List.flatMap_append

theorem length_encodeChar (c : Char) : (encodeChar c).length = units c := by
  unfold encodeChar units
  split <;> rfl

@[simp] theorem length_encode (chars : List Char) : (encode chars).length = width chars := by
  induction chars with
  | nil => rfl
  | cons c rest ih =>
    rw [encode_cons, List.length_append, ih, length_encodeChar, width_cons]

/-- A character takes one code unit, which is no half of a pair, or the two halves of a pair. -/
theorem encodeChar_cases (c : Char) :
    (∃ unit, encodeChar c = [unit] ∧ ¬ IsHigh unit ∧ ¬ IsLow unit) ∨
      ∃ high low, encodeChar c = [high, low] ∧ IsHigh high ∧ IsLow low := by
  have valid := c.valid
  simp only [UInt32.isValidChar, Nat.isValidChar] at valid
  have value : c.toNat = c.val.toNat := rfl
  unfold encodeChar IsHigh IsLow
  split
  · rename_i small
    refine .inl ⟨_, rfl, ?_⟩
    rw [UInt16.toNat_ofNat']
    omega
  · refine .inr ⟨_, _, rfl, ?_⟩
    rw [UInt16.toNat_ofNat', UInt16.toNat_ofNat']
    omega

/-- No characters start with the second half of a pair. -/
theorem not_isLow_of_encode_eq {chars : List Char} {unit : UInt16} {back : List UInt16}
    (h : encode chars = unit :: back) : ¬ IsLow unit := by
  cases chars with
  | nil => simp at h
  | cons c rest =>
    rw [encode_cons] at h
    rcases encodeChar_cases c with ⟨only, shape, -, single⟩ | ⟨high, low, shape, first, -⟩
    · rw [shape] at h
      obtain ⟨rfl, -⟩ := List.cons.inj h
      exact single
    · rw [shape] at h
      obtain ⟨rfl, -⟩ := List.cons.inj h
      exact fun second => Nat.lt_irrefl _ (Nat.lt_of_lt_of_le first.2 second.1)

/-! ## Columns within a character -/

/-- There is no parting at a column beyond the end, or within a character that takes two code
units, and at every other column there is one. -/
theorem splitAt?_eq_none_iff {chars : List Char} {column : Nat} :
    splitAt? chars column = none ↔
      width chars < column ∨
        ∃ before c after,
          chars = before ++ c :: after ∧ units c = 2 ∧ width before + 1 = column := by
  induction chars generalizing column with
  | nil => cases column <;> simp [splitAt?]
  | cons c rest ih =>
    cases column with
    | zero => simp [splitAt?]
    | succ column =>
      unfold splitAt?
      split
      · rename_i fits
        rw [Option.map_eq_none_iff, ih, width_cons]
        constructor
        · rintro (short | ⟨before, d, after, rfl, double, wide⟩)
          · exact .inl (by omega)
          · exact .inr ⟨c :: before, d, after, rfl, double, by simp only [width_cons]; omega⟩
        · rintro (short | ⟨before, d, after, parts, double, wide⟩)
          · exact .inl (by omega)
          · cases before with
            | nil =>
              obtain ⟨rfl, rfl⟩ := List.cons.inj parts
              simp only [width_nil] at wide
              omega
            | cons e front =>
              obtain ⟨rfl, rfl⟩ := List.cons.inj parts
              simp only [width_cons] at wide
              exact .inr ⟨front, d, after, rfl, double, by omega⟩
      · rename_i wider
        -- A character that does not fit into one code unit takes two.
        have double : units c = 2 := (units_eq c).resolve_left fun single => by omega
        exact iff_of_true rfl (.inr ⟨[], c, rest, rfl, double, by simp only [width_nil]; omega⟩)

/-- The columns within a character are those within a surrogate pair. -/
theorem splitsPair_iff {chars : List Char} {column : Nat} :
    SplitsPair (encode chars) column ↔
      ∃ before c after, chars = before ++ c :: after ∧ units c = 2 ∧ width before + 1 = column := by
  constructor
  · rintro ⟨front, high, low, back, whole, place, -, second⟩
    have total := congrArg List.length whole
    simp only [length_encode, List.length_append, List.length_cons] at total
    cases parting : splitAt? chars column with
    | none =>
      rcases splitAt?_eq_none_iff.mp parting with short | within
      · omega
      · exact within
    | some parts =>
      -- What is parted here starts with a character, and this one would start with the second half.
      obtain ⟨rfl, wide⟩ := splitAt?_eq_some_iff.mp parting
      have halves : encode parts.1 ++ encode parts.2 = (front ++ [high]) ++ low :: back := by
        rw [← encode_append, whole, List.append_assoc]
        rfl
      have later := List.append_inj_right halves (by simp; omega)
      exact absurd second (not_isLow_of_encode_eq later)
  · rintro ⟨before, c, after, rfl, double, place⟩
    rcases encodeChar_cases c with ⟨only, shape, -⟩ | ⟨high, low, shape, first, second⟩
    · have single := length_encodeChar c
      rw [shape, double] at single
      simp at single
    · refine ⟨encode before, high, low, encode after, ?_, by rw [length_encode, place],
        first, second⟩
      rw [encode_append, encode_cons, shape]
      rfl

/-! ## Bytes -/

theorem byteSize_eq (chars : List Char) : byteSize chars = (Utf8.encode chars).length := by
  induction chars with
  | nil => rfl
  | cons c rest ih =>
    rw [byteSize, ih, Utf8.encode_cons, List.length_append, String.length_utf8EncodeChar]

theorem utf8ByteSize_ofList (chars : List Char) :
    (String.ofList chars).utf8ByteSize = byteSize chars := by
  rw [← String.size_toByteArray, String.toByteArray_ofList, Utf8.utf8Encode_eq, byteSize_eq]
  rfl

/-- Bytes are parted at a character boundary exactly when the characters are. -/
theorem isValid_iff {chars : List Char} {byte : Nat} :
    (String.Pos.Raw.mk byte).IsValid (String.ofList chars) ↔
      ∃ before after, chars = before ++ after ∧ byteSize before = byte := by
  rw [String.Pos.Raw.isValid_iff_exists_append]
  constructor
  · rintro ⟨front, back, whole, place⟩
    refine ⟨front.toList, back.toList, ?_, ?_⟩
    · rw [← String.toList_append, ← whole, String.toList_ofList]
    · rw [← utf8ByteSize_ofList, String.ofList_toList, ← String.byteIdx_rawEndPos, ← place]
  · rintro ⟨before, after, rfl, rfl⟩
    refine ⟨String.ofList before, String.ofList after, String.ofList_append, ?_⟩
    rw [← utf8ByteSize_ofList]
    rfl

/-- The characters that the first bytes of a text encode, if these are whole characters. -/
def firstBytes? (chars : List Char) (byte : Nat) : Option (List Char) :=
  Utf8.decode? ((Utf8.encode chars).take byte)

theorem firstBytes?_append (before after : List Char) :
    firstBytes? (before ++ after) (byteSize before) = some before := by
  rw [firstBytes?, Utf8.encode_append, byteSize_eq, List.take_left, Utf8.decode?_encode]

/-- A byte is a character boundary, and the bytes before it take `column` code units. -/
def Reaches (chars : List Char) (byte column : Nat) : Prop :=
  (String.Pos.Raw.mk byte).IsValid (String.ofList chars) ∧
    (firstBytes? chars byte).map (fun before => (encode before).length) = some column

theorem reaches_iff {chars : List Char} {byte column : Nat} :
    Reaches chars byte column ↔
      ∃ before after, chars = before ++ after ∧ byteSize before = byte ∧ width before = column := by
  constructor
  · rintro ⟨boundary, wide⟩
    obtain ⟨before, after, rfl, rfl⟩ := isValid_iff.mp boundary
    rw [firstBytes?_append] at wide
    exact ⟨before, after, rfl, rfl, by simpa using wide⟩
  · rintro ⟨before, after, rfl, rfl, rfl⟩
    exact ⟨isValid_iff.mpr ⟨before, after, rfl, rfl⟩, by simp [firstBytes?_append]⟩

theorem byteOffset?_eq_some_iff {chars : List Char} {byte column : Nat} :
    byteOffset? chars column = some byte ↔ Reaches chars byte column := by
  simp only [byteOffset?, Option.map_eq_some_iff, Prod.exists, splitAt?_eq_some_iff, reaches_iff]
  constructor
  · rintro ⟨before, after, ⟨parts, wide⟩, size⟩
    exact ⟨before, after, parts, size, wide⟩
  · rintro ⟨before, after, parts, size, wide⟩
    exact ⟨before, after, ⟨parts, wide⟩, size⟩

theorem byteOffset?_eq_none_iff {chars : List Char} {column : Nat} :
    byteOffset? chars column = none ↔
      (encode chars).length < column ∨ SplitsPair (encode chars) column := by
  rw [byteOffset?, Option.map_eq_none_iff, splitAt?_eq_none_iff, splitsPair_iff, length_encode]

/-- The number of characters before a column is counted in the bytes before it. -/
theorem charOffset?_eq (chars : List Char) (column : Nat) :
    charOffset? chars column =
      (byteOffset? chars column).bind fun byte => (firstBytes? chars byte).map List.length := by
  cases parting : splitAt? chars column with
  | none => simp [charOffset?, byteOffset?, parting]
  | some parts =>
    obtain ⟨rfl, -⟩ := splitAt?_eq_some_iff.mp parting
    simp [charOffset?, byteOffset?, parting, firstBytes?_append]

theorem columnOfByte_of_le {chars : List Char} {byte : Nat} (h : byteSize chars ≤ byte) :
    columnOfByte chars byte = width chars := by
  induction chars generalizing byte with
  | nil => rfl
  | cons c rest ih =>
    rw [byteSize] at h
    rw [columnOfByte, if_pos (by omega), ih (by omega), width_cons]

/-! ## The walk over the characters -/

/-- Looks for a column by going over the characters, with the column and the byte at which the next
one starts, and stops at the first character that starts at the column or behind it. -/
def walk (target : Nat) : List Char → (column byte : Nat) → Option Nat
  | [], column, byte => if column = target then some byte else none
  | c :: rest, column, byte =>
    if column = target then some byte
    else if target < column then none
    else walk target rest (column + units c) (byte + c.utf8Size)

/-- Behind the column there is nothing to be found any more. -/
theorem walk_of_lt {target column : Nat} (h : target < column) (chars : List Char) (byte : Nat) :
    walk target chars column byte = none := by
  cases chars with
  | nil => rw [walk, if_neg (by omega)]
  | cons c rest => rw [walk, if_neg (by omega), if_pos h]

/-- From any character on, the walk looks for what is left of the column. -/
theorem walk_add (column left : Nat) (chars : List Char) (byte : Nat) :
    walk (column + left) chars column byte = (byteOffset? chars left).map (byte + ·) := by
  induction chars generalizing column left byte with
  | nil => cases left <;> simp [walk, byteOffset?, splitAt?, byteSize]
  | cons c rest ih =>
    cases left with
    | zero => simp [walk, byteOffset?, splitAt?, byteSize]
    | succ left =>
      rw [walk, if_neg (by omega), if_neg (by omega)]
      by_cases fits : units c ≤ left + 1
      · have target : column + (left + 1) = column + units c + (left + 1 - units c) := by omega
        rw [target, ih]
        simp only [byteOffset?, splitAt?, if_pos fits, Option.map_map, Function.comp_def, byteSize,
          Nat.add_assoc]
      · rw [walk_of_lt (by omega)]
        simp [byteOffset?, splitAt?, fits]

/-- Going over the characters once finds the byte of a column. -/
theorem byteOffset?_eq_walk (chars : List Char) (column : Nat) :
    byteOffset? chars column = walk column chars 0 0 := by
  have found := walk_add 0 column chars 0
  simpa using found.symm

/-! ## The three measures together -/

/-- The byte of a column is the only character boundary up to which the text takes `column` code
units. There is none exactly beyond the end of the text and within a surrogate pair. The number of
characters before a column is that of the characters in the bytes before it, and is missing in the
same cases. Back from a character boundary, the column of the byte has this byte for its byte, and
beyond the end it is the width of the text, which is the number of its code units. -/
theorem columns_of_bytes (chars : List Char) :
    (∀ column byte, byteOffset? chars column = some byte ↔ Reaches chars byte column) ∧
    (∀ column byte other,
      Reaches chars byte column → Reaches chars other column → byte = other) ∧
    (∀ column, byteOffset? chars column = none ↔
      (encode chars).length < column ∨ SplitsPair (encode chars) column) ∧
    (∀ column, charOffset? chars column =
      (byteOffset? chars column).bind fun byte => (firstBytes? chars byte).map List.length) ∧
    (∀ column, charOffset? chars column = none ↔ byteOffset? chars column = none) ∧
    (∀ byte, (String.Pos.Raw.mk byte).IsValid (String.ofList chars) →
      byteOffset? chars (columnOfByte chars byte) = some byte) ∧
    (∀ byte, (Utf8.encode chars).length ≤ byte → columnOfByte chars byte = width chars) ∧
    width chars = (encode chars).length := by
  refine ⟨fun column byte => byteOffset?_eq_some_iff, ?_, fun column => byteOffset?_eq_none_iff,
    charOffset?_eq chars, ?_, ?_, ?_, (length_encode chars).symm⟩
  · intro column byte other reaches again
    have first := byteOffset?_eq_some_iff.mpr reaches
    have second := byteOffset?_eq_some_iff.mpr again
    exact Option.some.inj (first.symm.trans second)
  · intro column
    simp only [charOffset?, byteOffset?, Option.map_eq_none_iff]
  · intro byte boundary
    obtain ⟨before, after, rfl, rfl⟩ := isValid_iff.mp boundary
    rw [columnOfByte_byteSize]
    exact byteOffset?_eq_some_iff.mpr (reaches_iff.mpr ⟨before, after, rfl, rfl, rfl⟩)
  · intro byte behind
    exact columnOfByte_of_le (by rwa [byteSize_eq])

/-- A character of two bytes and one of four, which is a surrogate pair around column 2. -/
theorem columns_of_bytes_wide :
    Reaches "é😀".toList 2 1 ∧ Reaches "é😀".toList 6 3 ∧
    SplitsPair (encode "é😀".toList) 2 ∧ byteOffset? "é😀".toList 2 = none ∧
    charOffset? "é😀".toList 3 = some 2 ∧
    (String.Pos.Raw.mk 2).IsValid (String.ofList "é😀".toList) ∧
    byteOffset? "é😀".toList (columnOfByte "é😀".toList 2) = some 2 ∧
    (Utf8.encode "é😀".toList).length ≤ 7 ∧ columnOfByte "é😀".toList 7 = 3 := by
  obtain ⟨found, -, missing, counted, -, back, behind, -⟩ := columns_of_bytes "é😀".toList
  have boundary : (String.Pos.Raw.mk 2).IsValid (String.ofList "é😀".toList) :=
    isValid_iff.mpr ⟨['é'], ['😀'], by decide, by decide⟩
  have pair : SplitsPair (encode "é😀".toList) 2 :=
    splitsPair_iff.mpr ⟨['é'], '😀', [], by decide, by decide, by decide⟩
  have size : (Utf8.encode "é😀".toList).length ≤ 7 := by decide
  have last : byteOffset? "é😀".toList 3 = some 6 := by decide
  refine ⟨(found 1 2).mp (by decide), (found 3 6).mp last, pair, (missing 2).mpr (.inr pair),
    ?_, boundary, back 2 boundary, size, (behind 7 size).trans (by decide)⟩
  rw [counted, last]
  decide

end LanguageServer.Utf16
