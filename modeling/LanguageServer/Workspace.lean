import LanguageServer.Completion.Candidate
import LanguageServer.Config
import LanguageServer.Diagnostic
import LanguageServer.Store
/-!
The open documents under the settings of a session, and the publication of their diagnostics. Each
operation that may change the diagnostics of a document queues its uri, and `publish` writes for
every queued uri what holds then.
-/

namespace LanguageServer

/-- The diagnostics of a uri at a version, in place of all that were published before. A document
that is closed has no version. -/
structure Publication where
  uri : String
  version : Option Int32
  diagnostics : List Diagnostic
  deriving DecidableEq, Repr

structure Workspace where
  store : Store
  config : Config
  classify : Classifier

namespace Workspace

def new (config : Config) (classify : Classifier) : Workspace := ⟨.empty, config, classify⟩

def openDocument (workspace : Workspace) (uri : String) (text : Text) (version : Int32) :
    Except DocumentError Workspace := do
  let store ← workspace.store.openDocument uri text version
  .ok { workspace with store := store }

def edit (workspace : Workspace) (uri : String) (changes : List Change) (version : Int32) :
    Except DocumentError Workspace := do
  let store ← workspace.store.edit uri changes version
  .ok { workspace with store := store }

def close (workspace : Workspace) (uri : String) : Workspace :=
  { workspace with store := workspace.store.close uri }

/-- Replaces the settings. The diagnostics of every open document may change by that. -/
def configure (workspace : Workspace) (config : Config) : Workspace :=
  { workspace with config := config, store := workspace.store.scheduleAll }

def complete (workspace : Workspace) (uri : String) (position : Position) :
    Except DocumentError (List Candidate) := do
  let document ← workspace.store.document uri
  let snippets := workspace.config.snippets
  match Candidate.atPosition? workspace.classify snippets document.text position with
  | some candidates => .ok candidates
  | none => .error (.invalidPosition position)

/-- The diagnostics of a text under the settings. -/
def diagnose (workspace : Workspace) (text : Text) : List Diagnostic :=
  if workspace.config.diagnostics then Diagnostic.scan text else []

def validate (workspace : Workspace) (uri : String) : Except DocumentError (List Diagnostic) := do
  let document ← workspace.store.document uri
  .ok (workspace.diagnose document.text)

/-- What there is to publish for a uri. -/
def publication (workspace : Workspace) (uri : String) : Publication :=
  match workspace.store.document? uri with
  | some document => ⟨uri, some document.version, workspace.diagnose document.text⟩
  | none => ⟨uri, none, []⟩

/-- Empties the queue and publishes for each uri in it. -/
def publish (workspace : Workspace) : List Publication × Workspace :=
  let (uris, store) := workspace.store.drain
  (uris.map workspace.publication, { workspace with store := store })

/-- How many publications `publish` says it makes: one for each queued uri. -/
def publishCount (workspace : Workspace) : Nat := workspace.store.drain.1.length

end Workspace

end LanguageServer
