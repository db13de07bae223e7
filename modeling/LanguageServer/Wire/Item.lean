import LanguageServer.Completion.Candidate
import LanguageServer.Json.Printer
import LanguageServer.Wire.Field
/-!
Completion items: candidates as clients see them. An item carries its category along, so that a
candidate can be read back from it.
-/

namespace LanguageServer

/-- The number under which clients know what sort of thing a keyword of a category completes. -/
def Category.itemKind : Category → Nat
  | declarations => 7
  | types => 22
  | modifiers => 14
  | actions => 3
  | control => 14
  | properties => 10

def Json.markdown (text : String) : Json :=
  .object [("kind", .str "markdown"), ("value", .str text)]

namespace Candidate

/-- A number in at least four digits, so that the first ten thousand sort as they count. -/
def sortText (index : Nat) : String :=
  let digits := Json.decimal index
  String.ofList (List.replicate (4 - digits.length) '0' ++ digits)

def plainFormat : Int := 1

def snippetFormat : Int := 2

/-- The item for a candidate; `index` is its place in the answer. -/
def toJson (candidate : Candidate) (index : Nat) : Json :=
  let item := Json.object [
    ("label", .str candidate.label),
    ("kind", .nat candidate.category.itemKind),
    ("detail", .str candidate.detail),
    ("insertText", .str candidate.insertText),
    ("insertTextFormat", .int (if candidate.isSnippet then snippetFormat else plainFormat)),
    ("sortText", .str (sortText index)),
    ("data", .object [("category", .str candidate.category.name)])]
  match candidate.documentation with
  | some text => item.set "documentation" (.markdown text)
  | none => item

/-- The category that an item carries along. -/
def carriedCategory? (item : Json) : Option Category :=
  ((item.at? ["data", "category"]).bind Json.str?).bind Category.ofName?

/-- The documentation of an item, which is a string or an object with a string. -/
def documentation? (item : Json) : Option String :=
  match item.get? "documentation" with
  | some (.str text) => some text
  | some markup => (markup.get? "value").bind Json.str?
  | none => none

/-- Reads a candidate from an item. An item that carries no category has that of its label. -/
def ofJson (item : Json) : Except ParamError Candidate := do
  let label ← item.stringField "label"
  match (carriedCategory? item).or (Category.ofKeyword? label) with
  | none => .error (.notKeyword label)
  | some category =>
    .ok {
      label := label
      category := category
      detail := ((item.get? "detail").bind Json.str?).getD category.detail
      documentation := documentation? item
      insertText := ((item.get? "insertText").bind Json.str?).getD label
      isSnippet := (item.get? "insertTextFormat").bind Json.int? = some snippetFormat }

/-- Sets in an item what resolving a candidate sets. All else in the item stays as the client sent
it. -/
def updateItem (item : Json) (candidate : Candidate) : Json :=
  let item := item.set "detail" (.str candidate.detail)
  match candidate.documentation with
  | some text => item.set "documentation" (.markdown text)
  | none => item

/-- The answer to a client that asks about an item. An item that is no candidate goes back as it
is. -/
def resolveItem (item : Json) : Json :=
  match ofJson item with
  | .ok candidate => updateItem item candidate.resolve
  | .error _ => item

end Candidate

end LanguageServer
