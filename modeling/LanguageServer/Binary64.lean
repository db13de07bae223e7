/-!
Finite IEEE 754 binary64 numbers by their bit patterns, and correct rounding in exact arithmetic: a
ratio goes to the nearest number, a tie to the one with the even pattern.
-/

namespace LanguageServer

/-- A finite binary64 number: its sign and its other sixty-three bits. The patterns from
`0x7FF0000000000000` on stand for infinity and for no number. -/
structure Binary64 where
  negative : Bool
  magnitude : Fin 0x7FF0000000000000
  deriving DecidableEq, Repr

namespace Binary64

/-- The leading bit of a significand, which patterns leave out. -/
def leadingBit : Nat := 0x10000000000000

/-- The integer significand of a pattern. -/
def significand (pattern : Nat) : Nat :=
  if pattern < leadingBit then pattern else pattern % leadingBit + leadingBit

/-- The power of two by which the significand counts, raised by 1074. -/
def scale (pattern : Nat) : Nat := pattern / leadingBit - 1

/-- The size of a pattern's number as a numerator and a denominator. -/
def ratio (pattern : Nat) : Nat × Nat :=
  if scale pattern < 1074 then (significand pattern, Nat.pow 2 (1074 - scale pattern))
  else (significand pattern * Nat.pow 2 (scale pattern - 1074), 1)

/-- The integer nearest to a quotient, the even one of two. -/
def roundQuotient (num den : Nat) : Nat :=
  let floor := num / den
  let twice := 2 * (num % den)
  if twice < den then floor
  else if den < twice then floor + 1
  else floor + floor % 2

/-- Whether `2 ^ exponent ≤ num / den`. -/
def powerLe (exponent : Int) (num den : Nat) : Bool :=
  if exponent < 0 then den ≤ num * Nat.pow 2 exponent.natAbs
  else den * Nat.pow 2 exponent.natAbs ≤ num

/-- The pattern nearest to a quotient. It is no finite number's when the quotient is too large. -/
def nearest (num den : Nat) : Nat :=
  if num = 0 then 0
  else
    let guess : Int := num.log2 - den.log2
    let exponent := if powerLe guess num den then guess else guess - 1
    let scale := (exponent + 1022).toNat
    let rounded :=
      if scale < 1074 then roundQuotient (num * Nat.pow 2 (1074 - scale)) den
      else roundQuotient num (den * Nat.pow 2 (scale - 1074))
    scale * leadingBit + rounded

def ofPattern? (negative : Bool) (pattern : Nat) : Option Binary64 :=
  if h : pattern < 0x7FF0000000000000 then some ⟨negative, ⟨pattern, h⟩⟩ else none

/-- The pattern nearest to a power of ten. -/
def powerOfTen (exponent : Nat) : Nat := nearest (Nat.pow 10 exponent) 1

/-- The nearest pattern to the product of two patterns' numbers. -/
def product (a b : Nat) : Nat :=
  nearest ((ratio a).1 * (ratio b).1) ((ratio a).2 * (ratio b).2)

/-- The nearest pattern to the quotient of two patterns' numbers. -/
def quotient (a b : Nat) : Nat :=
  nearest ((ratio a).1 * (ratio b).2) ((ratio a).2 * (ratio b).1)

end Binary64

end LanguageServer
