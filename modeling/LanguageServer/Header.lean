import LanguageServer.Unicode.Word
/-!
Declaration headers: indentation, a word, white space, a name, a colon and white space to the end of
the line.
-/

namespace LanguageServer

/-- The parts of a header, in their order; a colon stands between `name` and `tail`. -/
structure Header where
  indent : List Char
  word : List Char
  gap : List Char
  name : List Char
  tail : List Char
  deriving DecidableEq, Repr

namespace Header

open Unicode

/-- What stands before the name. -/
def lead (header : Header) : List Char := header.indent ++ header.word ++ header.gap

def chars (header : Header) : List Char := header.lead ++ header.name ++ ':' :: header.tail

/-- Reads a line as a header. The name starts with the first character behind the gap and reaches to
the last colon of the line. -/
def ofLine? (line : List Char) : Option Header :=
  let rest := line.dropWhile isWhiteSpace
  let word := rest.takeWhile isWord
  let rest' := rest.dropWhile isWord
  let gap := rest'.takeWhile isWhiteSpace
  let reversed := (rest'.dropWhile isWhiteSpace).reverse
  match reversed.dropWhile isWhiteSpace with
  | ':' :: c :: name =>
    if word = [] ∨ gap = [] then none
    else
      some ⟨line.takeWhile isWhiteSpace, word, gap, (c :: name).reverse,
        (reversed.takeWhile isWhiteSpace).reverse⟩
  | _ => none

end Header

end LanguageServer
