import LanguageServer.Json
/-!
The numerals of JSON and what they stand for. A numeral without fraction and exponent is an
integer if it fits sixty-four bits. Any other is a binary64 number, read in two roundings: the
leading digits that fit sixty-four bits to a number, and that number times or over a power of ten.
-/

namespace LanguageServer.Json

/-- The parts of a numeral; digits are numbers below ten. -/
structure Numeral where
  negative : Bool
  whole : List Nat
  fraction : Option (List Nat)
  exponent : Option Int
  deriving DecidableEq, Repr

namespace Numeral

/-- Appends digits to a significand as long as it fits sixty-four bits. The second part is the
list of digits from the first one on that no longer fits. -/
def absorb (significand : Nat) : List Nat → Nat × List Nat
  | [] => (significand, [])
  | d :: rest =>
    if significand * 10 + d < 0x10000000000000000 then absorb (significand * 10 + d) rest
    else (significand, d :: rest)

/-- The pattern of a pattern's number times a power of ten. A power of ten below the least one of
the format is taken in steps of 308 as long as the number is not zero. -/
def scaled? (pattern : Nat) (exponent : Int) : Option Nat :=
  if -308 ≤ exponent then
    if pattern = 0 ∨ exponent ≤ 308 then
      if exponent < 0 then some (Binary64.quotient pattern (Binary64.powerOfTen exponent.natAbs))
      else if pattern = 0 then some 0
      else some (Binary64.product pattern (Binary64.powerOfTen exponent.natAbs))
    else none
  else if pattern = 0 then some 0
  else scaled? (Binary64.quotient pattern (Binary64.powerOfTen 308)) (exponent + 308)
termination_by exponent.natAbs

def float? (negative : Bool) (significand : Nat) (exponent : Int) : Option Json := do
  let pattern ← scaled? (Binary64.nearest significand 1) exponent
  let value ← Binary64.ofPattern? negative pattern
  some (.float value)

/-- The value of a numeral. Those that exceed every binary64 number have none. -/
def value? (n : Numeral) : Option Json :=
  let (whole, beyond) := absorb 0 n.whole
  match n.fraction, n.exponent, beyond with
  | none, none, [] =>
    if n.negative then
      if whole = 0 ∨ 0x8000000000000000 < whole then float? true whole 0 else some (.int (-whole))
    else some (.int whole)
  | fraction, exponent, beyond =>
    let digits := fraction.getD []
    let (significand, unread) := absorb whole digits
    float? n.negative significand
      (beyond.length - (digits.length - unread.length : Nat) + exponent.getD 0)

end Numeral

def isDigit (c : Char) : Bool := '0' ≤ c && c ≤ '9'

def digitValue (c : Char) : Nat := c.toNat - '0'.toNat

/-- Reads a run of digits, which may be empty. -/
def digits (chars : List Char) : List Nat × List Char :=
  ((chars.takeWhile isDigit).map digitValue, chars.dropWhile isDigit)

/-- Reads what follows the point of a numeral, if there is a point. -/
def fraction? : List Char → Option (Option (List Nat) × List Char)
  | '.' :: rest =>
    match digits rest with
    | ([], _) => none
    | (ds, rest) => some (some ds, rest)
  | rest => some (none, rest)

def sign : List Char → Bool × List Char
  | '-' :: rest => (true, rest)
  | '+' :: rest => (false, rest)
  | rest => (false, rest)

/-- Reads the exponent of a numeral, if there is one. -/
def exponent? : List Char → Option (Option Int × List Char)
  | [] => some (none, [])
  | c :: rest =>
    if c = 'e' ∨ c = 'E' then
      let (negative, rest) := sign rest
      match digits rest with
      | ([], _) => none
      | (ds, rest) =>
        let size : Int := (ds.foldl (fun n d => n * 10 + d) 0 : Nat)
        some (some (if negative then -size else size), rest)
    else some (none, c :: rest)

/-- Reads the digits before the point: a lone zero, or a run that starts with another digit. -/
def whole? (chars : List Char) : Option (List Nat × List Char) :=
  match digits chars with
  | ([], _) => none
  | (0 :: _ :: _, _) => none
  | (ds, rest) => some (ds, rest)

def minus : List Char → Bool × List Char
  | '-' :: rest => (true, rest)
  | rest => (false, rest)

def numeral? (chars : List Char) : Option (Numeral × List Char) := do
  let (negative, rest) := minus chars
  let (whole, rest) ← whole? rest
  let (fraction, rest) ← fraction? rest
  let (exponent, rest) ← exponent? rest
  some (⟨negative, whole, fraction, exponent⟩, rest)

end LanguageServer.Json
