/-!
Columns in UTF-16 code units. A character above U+FFFF takes two units, every other one; a column
between the two names no place in the text.
-/

namespace LanguageServer.Utf16

/-- How many code units a character takes. -/
def units (c : Char) : Nat := if c.toNat ≤ 0xFFFF then 1 else 2

/-- How many code units some characters take. -/
def width : List Char → Nat
  | [] => 0
  | c :: rest => units c + width rest

/-- Parts the characters at a column. There is no such parting beyond the end or within a
character. -/
def splitAt? : List Char → Nat → Option (List Char × List Char)
  | chars, 0 => some ([], chars)
  | [], _ + 1 => none
  | c :: rest, column =>
    if units c ≤ column then
      (splitAt? rest (column - units c)).map fun parts => (c :: parts.1, parts.2)
    else none

/-- The number of characters before a column. -/
def charOffset? (chars : List Char) (column : Nat) : Option Nat :=
  (splitAt? chars column).map fun parts => parts.1.length

/-- How many UTF-8 bytes some characters take. -/
def byteSize : List Char → Nat
  | [] => 0
  | c :: rest => c.utf8Size + byteSize rest

/-- The number of UTF-8 bytes before a column. -/
def byteOffset? (chars : List Char) (column : Nat) : Option Nat :=
  (splitAt? chars column).map fun parts => byteSize parts.1

/-- The column after as many whole characters as fit into the first `bytes` UTF-8 bytes. -/
def columnOfByte : List Char → Nat → Nat
  | [], _ => 0
  | c :: rest, bytes =>
    if c.utf8Size ≤ bytes then units c + columnOfByte rest (bytes - c.utf8Size) else 0

end LanguageServer.Utf16
