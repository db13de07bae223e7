import LanguageServer.Binary64
/-!
The shortest decimal that reads back as a given number. The decimals that read back fill an interval
around the number, whose ends belong to it when the significand is even; of the decimals with the
fewest digits in it the one nearest to the number is taken, the even one of two.
-/

namespace LanguageServer.Binary64

/-- The decimal `digits * 10 ^ exponent`. -/
structure Decimal where
  digits : Nat
  exponent : Int
  deriving DecidableEq, Repr

namespace Decimal

/-- The decimal's size as a numerator and a denominator. -/
def ratio (d : Decimal) : Nat × Nat :=
  if d.exponent < 0 then (d.digits, Nat.pow 10 d.exponent.natAbs)
  else (d.digits * Nat.pow 10 d.exponent.natAbs, 1)

/-- The same decimal without zeros at its end, looking at no more than `count` of them. -/
def strip : Nat → Decimal → Decimal
  | 0, d => d
  | count + 1, d =>
    if d.digits % 10 = 0 then strip count ⟨d.digits / 10, d.exponent + 1⟩ else d

end Decimal

/-- The ends of the interval of the numbers that round to a pattern, as numerators over one
denominator. Below a power of two the neighbour is nearer. -/
def interval (pattern : Nat) : Nat × Nat × Nat :=
  let (num, den) := ratio pattern
  let m := significand pattern
  let low := if m = leadingBit ∧ 0 < scale pattern then 4 * m - 1 else 4 * m - 2
  (num / m * low, num / m * (4 * m + 2), 4 * den)

/-- Whether a decimal reads back as a pattern. -/
def readsBack (pattern : Nat) (d : Decimal) : Bool :=
  let (low, high, den) := interval pattern
  let (n, m) := d.ratio
  if significand pattern % 2 = 0 then low * m ≤ n * den && n * den ≤ high * m
  else low * m < n * den && n * den < high * m

/-- The least `k` with `num / den < 10 ^ k`, found downward from `start`. -/
def magnitudeBelow (num den : Nat) : Nat → Int → Int
  | 0, start => start
  | fuel + 1, start =>
    let k := start - 1
    let fits := if k < 0 then num * Nat.pow 10 k.natAbs < den else num < den * Nat.pow 10 k.natAbs
    if fits then magnitudeBelow num den fuel k else start

/-- The two neighbours of a quotient among the multiples of `10 ^ exponent`: the lower one, and
whether the upper one is nearer or, at a tie, the even one. -/
def neighbour (num den : Nat) (exponent : Int) : Nat × Bool :=
  let (n, d) :=
    if exponent < 0 then (num * Nat.pow 10 exponent.natAbs, den)
    else (num, den * Nat.pow 10 exponent.natAbs)
  (n / d, roundQuotient n d = n / d + 1)

/-- A decimal of `count` significant digits that reads back, the nearer one of two. -/
def withDigits? (pattern : Nat) (top : Int) (count : Nat) : Option Decimal :=
  let (num, den) := ratio pattern
  let exponent := top - count
  let (lower, upperFirst) := neighbour num den exponent
  let candidates := if upperFirst then [lower + 1, lower] else [lower, lower + 1]
  (candidates.map fun digits => Decimal.mk digits exponent).find? (readsBack pattern)

/-- The shortest decimal of a pattern's number. Seventeen digits always suffice. -/
def shortest (pattern : Nat) : Decimal :=
  if pattern = 0 then ⟨0, 0⟩
  else
    let (num, den) := ratio pattern
    let top := magnitudeBelow num den 640 310
    match (List.range' 1 17).findSome? (withDigits? pattern top) with
    | some d => d.strip 17
    | none => ⟨0, 0⟩

end LanguageServer.Binary64
