import LanguageServer.Wire.Item
import LanguageServer.Wire.Message
/-!
A session with a client: a request to begin, then work on documents, then a request to shut down.
Handling a message gives the next state of the session and the messages to send, in order.
-/

namespace LanguageServer

inductive Phase
  | uninitialized
  | running
  | shuttingDown
  deriving DecidableEq, Repr

structure Session where
  workspace : Workspace
  phase : Phase
  /-- The client has asked the server to exit. -/
  exiting : Bool

/-- What the server tells a client that begins a session: changes may come as ranges, and
completion is offered after the trigger characters and with details on demand. -/
def Session.greeting : Json :=
  .object [
    ("capabilities", .object [
      ("textDocumentSync", .object [("openClose", .bool true), ("change", .int 2)]),
      ("completionProvider", .object [
        ("triggerCharacters", .arr (triggerCharacters.map .str)),
        ("resolveProvider", .bool true)])]),
    ("serverInfo", .object [("name", .str "blueprint-lsp"), ("version", .str "0.1.0")])]

/-- The settings that a client begins with: snippets only if it understands them, and then what its
options say. -/
def Config.requested (params : Json) : Config :=
  let snippets := ((params.get? "capabilities").bind Json.snippetSupport?).getD false
  let config : Config := { Config.initial with snippets := snippets }
  match params.get? "initializationOptions" with
  | some options => if options.isNull then config else config.override options
  | none => config

namespace Workspace

/-- Takes up the settings that a client sends, if there are any for this server. -/
def reconfigure (workspace : Workspace) (params : Json) : Workspace :=
  match params.at? ["settings", "blueprint"] with
  | some settings =>
    if settings.isNull then workspace
    else workspace.configure (workspace.config.override settings)
  | none => workspace

/-- Opens the document that a client sends. What is malformed or refused changes nothing. -/
def takeOpening (workspace : Workspace) (params : Json) : Workspace :=
  match Opening.ofJson params with
  | .ok opening =>
    match workspace.openDocument opening.uri (.ofString opening.text) opening.version with
    | .ok workspace => workspace
    | .error _ => workspace
  | .error _ => workspace

/-- Makes the changes that a client sends. What is malformed or refused changes nothing. -/
def takeEdit (workspace : Workspace) (params : Json) : Workspace :=
  match Edit.ofJson params with
  | .ok edit =>
    match workspace.edit edit.uri edit.changes edit.version with
    | .ok workspace => workspace
    | .error _ => workspace
  | .error _ => workspace

/-- Closes the document that a client closes. What is malformed changes nothing. -/
def takeClosing (workspace : Workspace) (params : Json) : Workspace :=
  match params.documentUri with
  | .ok uri => workspace.close uri
  | .error _ => workspace

/-- The workspace after a notification about documents or settings; none for any other one. -/
def notified? (workspace : Workspace) (method : String) (params : Json) : Option Workspace :=
  match method with
  | "textDocument/didOpen" => some (workspace.takeOpening params)
  | "textDocument/didChange" => some (workspace.takeEdit params)
  | "textDocument/didClose" => some (workspace.takeClosing params)
  | "workspace/didChangeConfiguration" => some (workspace.reconfigure params)
  | _ => none

/-- The completion items at a place; none where there is no such place. -/
def completionItems (workspace : Workspace) (cursor : Cursor) : Json :=
  match workspace.complete cursor.uri cursor.position with
  | .ok candidates => .arr (candidates.mapIdx fun index candidate => candidate.toJson index)
  | .error _ => .arr []

end Workspace

namespace Session

/-- A session before its first message. -/
def new : Session := ⟨.new .initial Context.classify, .uninitialized, false⟩

/-- Whether a session that ends now has been shut down before. -/
def isClean (session : Session) : Bool := session.phase = .shuttingDown

/-- Starts work under the settings of the client. -/
def begin (session : Session) (params : Json) : Session :=
  { session with
    workspace := session.workspace.configure (Config.requested params)
    phase := .running }

/-- The answer to a request while the session runs. Only a request to shut down changes the
session. -/
def answer (session : Session) (id : Json) (method : String) (params : Json) : Outgoing :=
  match method with
  | "initialize" => .failure id .alreadyInitialized
  | "shutdown" => .result id .null
  | "textDocument/completion" =>
    match Cursor.ofJson params with
    | .ok cursor => .result id (session.workspace.completionItems cursor)
    | .error error => .failure id (.invalidParams error)
  | "completionItem/resolve" => .result id (Candidate.resolveItem params)
  | method => .failure id (.unknownMethod method)

/-- Takes a request, which counts only while the session runs, except for the one to begin. -/
def handleRequest (session : Session) (id : Json) (method : String) (params : Json) :
    Session × Outgoing :=
  match session.phase with
  | .uninitialized =>
    if method = "initialize" then (session.begin params, .result id greeting)
    else (session, .failure id .notInitialized)
  | .running =>
    let next := if method = "shutdown" then { session with phase := .shuttingDown } else session
    (next, session.answer id method params)
  | .shuttingDown => (session, .failure id .shuttingDown)

/-- Takes a notification. It counts only while the session runs, except for the one to exit. -/
def handleNotification (session : Session) (method : String) (params : Json) :
    Session × List Publication :=
  if method = "exit" then ({ session with exiting := true }, [])
  else if session.phase = .running then
    match session.workspace.notified? method params with
    | some workspace =>
      let (publications, workspace) := workspace.publish
      ({ session with workspace := workspace }, publications)
    | none => (session, [])
  else (session, [])

/-- Takes a message. A request gets one answer, a notification none but the diagnostics it brings
about, a response nothing, and everything else an error without an id. -/
def handle (session : Session) (message : Json) : Session × List Outgoing :=
  match Incoming.ofJson message with
  | .request id method params =>
    let (session, reply) := session.handleRequest id method params
    (session, [reply])
  | .notification method params =>
    let (session, publications) := session.handleNotification method params
    (session, publications.map .publication)
  | .response => (session, [])
  | .invalid => (session, [.failure .null .invalid])

end Session

end LanguageServer
