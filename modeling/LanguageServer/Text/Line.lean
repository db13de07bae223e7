/-!
The lines of a text. A line ends at a line feed, a carriage return or the two in this order, and
at the end of the text; nothing else ends a line. The last line has no ending, so a text that ends
with a line break has an empty last line.
-/

namespace LanguageServer

inductive Ending
  | none
  | lf
  | cr
  | crlf
  deriving DecidableEq, Repr

def Ending.chars : Ending → List Char
  | none => []
  | lf => ['\n']
  | cr => ['\r']
  | crlf => ['\r', '\n']

structure Line where
  body : List Char
  ending : Ending
  deriving DecidableEq, Repr

namespace Line

def chars (line : Line) : List Char := line.body ++ line.ending.chars

/-- How many characters a line takes, with its ending. -/
def length (line : Line) : Nat := line.chars.length

/-- Splits what follows the characters `read` of a line, the last one first. -/
def splitAfter (read : List Char) : List Char → List Line
  | [] => [⟨read.reverse, .none⟩]
  | '\r' :: '\n' :: rest => ⟨read.reverse, .crlf⟩ :: splitAfter [] rest
  | '\r' :: rest => ⟨read.reverse, .cr⟩ :: splitAfter [] rest
  | '\n' :: rest => ⟨read.reverse, .lf⟩ :: splitAfter [] rest
  | c :: rest => splitAfter (c :: read) rest

/-- The lines of some characters, of which there is at least one. -/
def split (chars : List Char) : List Line := splitAfter [] chars

theorem flatMap_chars_splitAfter (read chars : List Char) :
    (splitAfter read chars).flatMap Line.chars = read.reverse ++ chars := by
  fun_induction splitAfter read chars <;> simp_all [Line.chars, Ending.chars]

/-- The lines with their endings are the whole text. -/
theorem flatMap_chars_split (chars : List Char) : (split chars).flatMap Line.chars = chars := by
  simp [split, flatMap_chars_splitAfter]

end Line

end LanguageServer
