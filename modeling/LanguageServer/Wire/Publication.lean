import LanguageServer.Wire.Edit
import LanguageServer.Workspace
/-!
Diagnostics as clients see them.
-/

namespace LanguageServer

/-- The number under which clients know a severity. -/
def Severity.toNat : Severity → Nat
  | error => 1
  | warning => 2
  | information => 3
  | hint => 4

def Diagnostic.toJson (diagnostic : Diagnostic) : Json :=
  let value := Json.object [
    ("range", diagnostic.range.toJson),
    ("severity", .nat diagnostic.severity.toNat),
    ("source", .str Diagnostic.source),
    ("message", .str diagnostic.message)]
  match diagnostic.rule with
  | some rule => value.set "code" (.str rule.code)
  | none => value

/-- The parameters that publish diagnostics. A closed document's have no version. -/
def Publication.toJson (publication : Publication) : Json :=
  let value := Json.object [
    ("uri", .str publication.uri),
    ("diagnostics", .arr (publication.diagnostics.map Diagnostic.toJson))]
  match publication.version with
  | some version => value.set "version" (.int version.toInt)
  | none => value

end LanguageServer
