import LanguageServer.Text
/-!
Open documents: a text with a version, and the edits that clients send. A batch of changes applies
as a whole or not at all.
-/

namespace LanguageServer

/-- A change of a text. Without a range the new text replaces everything. -/
structure Change where
  range : Option Range
  text : String
  deriving DecidableEq, Repr

structure Document where
  version : Int32
  text : Text
  deriving DecidableEq, Repr

/-- Why an operation on documents is refused. -/
inductive DocumentError
  | unknown (uri : String)
  | invalidPosition (position : Position)
  | stale (uri : String) (current requested : Int32)
  | duplicate (uri : String)
  deriving DecidableEq, Repr

def DocumentError.message : DocumentError → String
  | unknown uri => "unknown document: " ++ uri
  | invalidPosition position =>
    "invalid position: line " ++ toString position.line.toNat ++ ", character "
      ++ toString position.character.toNat
  | stale uri current requested =>
    "stale version for " ++ uri ++ ": current " ++ toString current.toInt ++ ", requested "
      ++ toString requested.toInt
  | duplicate uri => "document already open: " ++ uri

namespace Text

/-- The offset that a position denotes, or the refusal of the position. -/
def resolve (text : Text) (position : Position) : Except DocumentError Nat :=
  match text.offset? position with
  | some offset => .ok offset
  | none => .error (.invalidPosition position)

/-- Applies a change. The ends of its range may come in either order; the start is looked up
first. -/
def apply (text : Text) (change : Change) : Except DocumentError Text :=
  match change.range with
  | none => .ok (.ofString change.text)
  | some range => do
    let a ← text.resolve range.start
    let b ← text.resolve range.stop
    .ok (text.replace (min a b) (max a b) change.text.toList)

/-- Applies changes in order, each to the text that the ones before it leave. -/
def applyAll (text : Text) : List Change → Except DocumentError Text
  | [] => .ok text
  | change :: rest => do
    let text ← text.apply change
    text.applyAll rest

end Text

end LanguageServer
