import LanguageServer.Text.Line
import LanguageServer.Text.Position
import LanguageServer.Unicode.Utf16
/-!
The text of a document: its lines, the offsets that positions denote, and replacement. Offsets count
characters from the start of the text.
-/

namespace LanguageServer

structure Text where
  chars : List Char
  deriving DecidableEq, Repr

namespace Text

def ofString (s : String) : Text := ⟨s.toList⟩

def toString (text : Text) : String := String.ofList text.chars

def empty : Text := ⟨[]⟩

def size (text : Text) : Nat := text.chars.length

/-- The lines without their endings. -/
def lines (text : Text) : List (List Char) := (Line.split text.chars).map Line.body

def lineCount (text : Text) : Nat := text.lines.length

def line? (text : Text) (line : Nat) : Option (List Char) := text.lines[line]?

/-- The offset at which a line starts. -/
def lineStart (text : Text) (line : Nat) : Nat :=
  (((Line.split text.chars).take line).flatMap Line.chars).length

/-- What precedes a position on its line. There is nothing if the text has no such line, or if the
column lies beyond the end of the line or within a character. -/
def before? (text : Text) (position : Position) : Option (List Char) := do
  let line ← text.line? position.line.toNat
  let parts ← Utf16.splitAt? line position.character.toNat
  some parts.1

/-- The offset that a position denotes, if it denotes one. -/
def offset? (text : Text) (position : Position) : Option Nat :=
  (text.before? position).map fun before => text.lineStart position.line.toNat + before.length

/-- The number of the line in which an offset lies, and what of that line precedes it. A line break
belongs to the line it ends. -/
def locate : List Line → Nat → Nat × List Char
  | [], _ => (0, [])
  | [last], offset => (0, last.chars.take offset)
  | line :: rest, offset =>
    if offset < line.length then (0, line.chars.take offset)
    else
      let place := locate rest (offset - line.length)
      (place.1 + 1, place.2)

/-- The position of an offset; offsets beyond the end count as the end. -/
def positionOf (text : Text) (offset : Nat) : Position :=
  let place := locate (Line.split text.chars) offset
  .ofNat place.1 (Utf16.width place.2)

/-- Puts `new` in the place of the characters from `start` up to `stop`. Offsets beyond the end
count as the end, and an end before the start as the start. -/
def replace (text : Text) (start stop : Nat) (new : List Char) : Text :=
  ⟨text.chars.take start ++ new ++ text.chars.drop (max start stop)⟩

end Text

end LanguageServer
