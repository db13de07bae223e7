import LanguageServer.Catalog
import LanguageServer.Unicode.Word
/-!
What may be completed at a place follows from the line before it.
-/

namespace LanguageServer

/-- A kind of place, of which one place may have several. -/
inductive Context
  | lineStart
  | afterColon
  | typePosition
  | always
  deriving DecidableEq, Repr

/-- Tells the kinds of a place by the line before it. -/
abbrev Classifier := List Char → List Context

namespace Context

open Unicode

/-- The categories whose keywords are offered, in the order of the offer. -/
def categories : Context → List Category
  | lineStart => [.declarations]
  | afterColon => [.properties, .actions]
  | typePosition => [.types]
  | always => [.modifiers]

/-- Whether a line so far is white space only. -/
def isLineStart (before : List Char) : Bool := before.all isWhiteSpace

/-- Whether a line so far ends in a colon, but for white space. -/
def isAfterColon (before : List Char) : Bool :=
  (before.reverse.dropWhile isWhiteSpace).head? = some ':'

/-- Whether a line so far ends in a colon, but for white space and then word characters. -/
def isTypePosition (before : List Char) : Bool :=
  ((before.reverse.dropWhile isWord).dropWhile isWhiteSpace).head? = some ':'

/-- The kinds of a place, in the order in which they are declared. -/
def classify : Classifier := fun before =>
  (if isLineStart before then [lineStart] else [])
    ++ (if isAfterColon before then [afterColon] else [])
    ++ (if isTypePosition before then [typePosition] else [])
    ++ [always]

end Context

end LanguageServer
