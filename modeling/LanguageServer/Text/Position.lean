/-!
Places in a text as clients name them: a line and a column in UTF-16 code units, both from zero.
-/

namespace LanguageServer

structure Position where
  line : UInt32
  character : UInt32
  deriving DecidableEq, Repr

/-- Positions are in the order of their lines, and on one line in that of their columns. -/
instance : LT Position :=
  ⟨fun a b => a.line < b.line ∨ a.line = b.line ∧ a.character < b.character⟩

/-- The part between two positions; `stop` is the first position behind it. -/
structure Range where
  start : Position
  stop : Position
  deriving DecidableEq, Repr

/-- The position at a line and a column, both modulo 2³². -/
def Position.ofNat (line character : Nat) : Position := ⟨.ofNat line, .ofNat character⟩

end LanguageServer
