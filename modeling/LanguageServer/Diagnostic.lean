import LanguageServer.Catalog
import LanguageServer.Header
import LanguageServer.Text
/-!
Diagnostics. There is one rule: in the header of a declaration, a name of several words has to be
quoted. Each line is judged by itself.
-/

namespace LanguageServer

inductive Severity
  | error
  | warning
  | information
  | hint
  deriving DecidableEq, Repr

inductive Rule
  | multiWordName
  deriving DecidableEq, Repr

/-- The name under which clients know a rule. -/
def Rule.code : Rule → String
  | multiWordName => "multi-word-name"

structure Diagnostic where
  severity : Severity
  range : Range
  message : String
  rule : Option Rule
  deriving DecidableEq, Repr

namespace Diagnostic

/-- Who reports, in every diagnostic. -/
def source : String := "blueprint"

def multiWordMessage (word name : String) : String :=
  "Multi-word `" ++ word ++ "` names should be quoted: `" ++ name ++ "`"

/-- Whether a header declares something under an unquoted name of several words. Only a space parts
words, and space before the colon does not count. -/
def isMultiWord (header : Header) : Bool :=
  Keyword.isDeclaration (String.ofList header.word)
    && (Unicode.trimEnd header.name).contains ' '
    && header.name.head? != some '"'

/-- The diagnostic that marks the name of a header on a line. -/
def ofHeader (line : Nat) (header : Header) : Diagnostic :=
  let start := Utf16.width header.lead
  { severity := .warning
    range := ⟨.ofNat line start, .ofNat line (start + Utf16.width header.name)⟩
    message := multiWordMessage (String.ofList header.word) (String.ofList header.name)
    rule := some .multiWordName }

/-- What there is to say about a line of a text. -/
def ofLine? (number : Nat) (line : List Char) : Option Diagnostic :=
  ((Header.ofLine? line).filter isMultiWord).map (ofHeader number)

/-- The diagnostics of lines that are counted from `first`. -/
def ofLines (first : Nat) : List (List Char) → List Diagnostic
  | [] => []
  | line :: rest => (ofLine? first line).toList ++ ofLines (first + 1) rest

/-- All diagnostics of a text, from its first line to its last. -/
def scan (text : Text) : List Diagnostic := ofLines 0 text.lines

end Diagnostic

end LanguageServer
