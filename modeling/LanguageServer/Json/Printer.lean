import LanguageServer.Binary64.Shortest
import LanguageServer.Json
/-!
Writing JSON values without space. Strings escape what they must and no more; numbers that are not
integers are written with the fewest digits that read back.
-/

namespace LanguageServer.Json

def decimal (n : Nat) : List Char := Nat.toDigits 10 n

def integer (n : Int) : List Char := if n < 0 then '-' :: decimal n.natAbs else decimal n.natAbs

/-- A control character without a short escape is written as two lower-case hexadecimal digits. -/
def escape (c : Char) : List Char :=
  if c = '"' then ['\\', '"']
  else if c = '\\' then ['\\', '\\']
  else if c = '\x08' then ['\\', 'b']
  else if c = '\x0c' then ['\\', 'f']
  else if c = '\n' then ['\\', 'n']
  else if c = '\r' then ['\\', 'r']
  else if c = '\t' then ['\\', 't']
  else if c < ' ' then
    ['\\', 'u', '0', '0', Nat.digitChar (c.toNat / 16), Nat.digitChar (c.toNat % 16)]
  else [c]

def quoted (s : String) : List Char := '"' :: s.toList.flatMap escape ++ ['"']

/-- Where the notation of a number changes: the point stands within the digits, or zeros fill up
to it, while it is at most `whole` places after the first digit and fewer than `leading` before
it. -/
structure NumberFormat where
  whole : Int
  leading : Int

/-- Numbers are positional from `1e-5` up to below `1e16`. -/
def numberFormat : NumberFormat := ⟨16, 5⟩

/-- A power of ten behind a digit. It always has a sign, and no zeros before its first digit. -/
def power (n : Int) : List Char :=
  'e' :: (if n < 0 then '-' else '+') :: decimal n.natAbs

/-- Lays out the digits of a decimal. Positional notation always has a point. -/
def layout (format : NumberFormat) (d : Binary64.Decimal) : List Char :=
  let digits := decimal d.digits
  let point := digits.length + d.exponent
  if 0 ≤ d.exponent ∧ point ≤ format.whole then
    digits ++ List.replicate d.exponent.toNat '0' ++ ['.', '0']
  else if 0 < point ∧ point ≤ format.whole then
    digits.take point.toNat ++ '.' :: digits.drop point.toNat
  else if -format.leading < point ∧ point ≤ 0 then
    '0' :: '.' :: List.replicate point.natAbs '0' ++ digits
  else
    let fraction := if digits.length = 1 then [] else '.' :: digits.drop 1
    digits.take 1 ++ fraction ++ power (point - 1)

def number (value : Binary64) : List Char :=
  let size :=
    if value.magnitude.val = 0 then ['0', '.', '0']
    else layout numberFormat (Binary64.shortest value.magnitude.val)
  if value.negative then '-' :: size else size

mutual

/-- The text of a value. -/
def print : Json → List Char
  | null => ['n', 'u', 'l', 'l']
  | bool true => ['t', 'r', 'u', 'e']
  | bool false => ['f', 'a', 'l', 's', 'e']
  | int value => integer value
  | float value => number value
  | str value => quoted value
  | arr items => '[' :: printItems items
  | obj members => '\x7b' :: printMembers members

/-- The items of an array and its end. -/
def printItems : List Json → List Char
  | [] => [']']
  | [item] => print item ++ [']']
  | item :: rest => print item ++ ',' :: printItems rest

/-- The members of an object and its end. -/
def printMembers : List (String × Json) → List Char
  | [] => ['\x7d']
  | [(name, value)] => quoted name ++ ':' :: print value ++ ['\x7d']
  | (name, value) :: rest => quoted name ++ ':' :: print value ++ ',' :: printMembers rest

end

end LanguageServer.Json
