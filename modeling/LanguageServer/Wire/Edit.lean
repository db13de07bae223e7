import LanguageServer.Document
import LanguageServer.Wire.Field
/-!
Positions, ranges and changes as clients write them, and the parameters of the messages that carry
them. Members are looked at in the order of the definitions, and the first fault is the one that
is reported.
-/

namespace LanguageServer

def Position.ofJson (value : Json) : Except ParamError Position := do
  let line ← value.uint32Field "line"
  let character ← value.uint32Field "character"
  .ok ⟨line, character⟩

def Position.toJson (position : Position) : Json :=
  .object [("line", .nat position.line.toNat), ("character", .nat position.character.toNat)]

def Range.ofJson (value : Json) : Except ParamError Range := do
  let start ← Position.ofJson (← value.field "start")
  let stop ← Position.ofJson (← value.field "end")
  .ok ⟨start, stop⟩

def Range.toJson (range : Range) : Json :=
  .object [("start", range.start.toJson), ("end", range.stop.toJson)]

namespace Change

/-- Reads a change. No range and a null range both stand for the whole text. -/
def ofJson (value : Json) : Except ParamError Change := do
  let text ← value.stringField "text"
  match value.get? "range" with
  | none | some .null => .ok ⟨none, text⟩
  | some range => do
    let range ← Range.ofJson range
    .ok ⟨some range, text⟩

def listOfJson : List Json → Except ParamError (List Change)
  | [] => .ok []
  | value :: rest => do
    let change ← ofJson value
    let changes ← listOfJson rest
    .ok (change :: changes)

end Change

/-- A document that a client opens. -/
structure Opening where
  uri : String
  text : String
  version : Int32
  languageId : Option String
  deriving DecidableEq, Repr

def Opening.ofJson (params : Json) : Except ParamError Opening := do
  let item ← params.field "textDocument"
  let uri ← item.stringField "uri"
  let text ← item.stringField "text"
  let version ← item.int32Field "version"
  .ok ⟨uri, text, version, (item.get? "languageId").bind Json.str?⟩

/-- A batch of changes that a client has made. -/
structure Edit where
  uri : String
  version : Int32
  changes : List Change
  deriving DecidableEq, Repr

def Edit.ofJson (params : Json) : Except ParamError Edit := do
  let document ← params.field "textDocument"
  let items ← params.arrayField "contentChanges"
  let changes ← Change.listOfJson items
  let uri ← document.stringField "uri"
  let version ← document.int32Field "version"
  .ok ⟨uri, version, changes⟩

/-- Reads the uri of the document that parameters name. -/
def Json.documentUri (params : Json) : Except ParamError String := do
  let document ← params.field "textDocument"
  document.stringField "uri"

/-- A place at which a client asks for completion. -/
structure Cursor where
  uri : String
  position : Position
  deriving DecidableEq, Repr

def Cursor.ofJson (params : Json) : Except ParamError Cursor := do
  let uri ← params.documentUri
  let position ← Position.ofJson (← params.field "position")
  .ok ⟨uri, position⟩

/-- Whether client capabilities declare that snippets are understood. -/
def Json.snippetSupport? (capabilities : Json) : Option Bool :=
  (capabilities.at? ["textDocument", "completion", "completionItem", "snippetSupport"]).bind
    Json.bool?

end LanguageServer
