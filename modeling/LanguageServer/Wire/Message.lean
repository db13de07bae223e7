import LanguageServer.Wire.Publication
/-!
Messages. A request has an id and gets one response with that id; a notification has none and gets
no response.
-/

namespace LanguageServer

/-- What a client may send. -/
inductive Incoming
  | request (id : Json) (method : String) (params : Json)
  | notification (method : String) (params : Json)
  | response
  | invalid

/-- Reads a message. Any id counts, null too; parameters that are not there are null. -/
def Incoming.ofJson (message : Json) : Incoming :=
  let params := (message.get? "params").getD .null
  match (message.get? "method").bind Json.str?, message.get? "id" with
  | some method, some id => request id method params
  | some method, none => notification method params
  | none, some _ =>
    if (message.get? "result").isSome || (message.get? "error").isSome then response else invalid
  | none, none => invalid

/-- Why a message is answered with an error. -/
inductive RequestError
  | malformed
  | invalid
  | notInitialized
  | alreadyInitialized
  | shuttingDown
  | unknownMethod (method : String)
  | invalidParams (error : ParamError)
  deriving DecidableEq, Repr

namespace RequestError

def code : RequestError → Int
  | malformed => -32700
  | invalid | alreadyInitialized | shuttingDown => -32600
  | unknownMethod _ => -32601
  | invalidParams _ => -32602
  | notInitialized => -32002

/-- The text that a client gets. What the reader of JSON has to say about a malformed body is not
fixed here: one text stands for all of it. -/
def message : RequestError → String
  | malformed => "malformed JSON"
  | invalid => "not a JSON-RPC request or notification"
  | notInitialized => "server not initialized"
  | alreadyInitialized => "server already initialized"
  | shuttingDown => "server is shutting down"
  | unknownMethod method => "unknown method `" ++ method ++ "`"
  | invalidParams error => error.message

end RequestError

/-- What the server may send. -/
inductive Outgoing
  | result (id value : Json)
  | failure (id : Json) (error : RequestError)
  | publication (set : Publication)

namespace Outgoing

def resultJson (id value : Json) : Json :=
  .object [("jsonrpc", .str "2.0"), ("id", id), ("result", value)]

def failureJson (id : Json) (code : Int) (message : String) : Json :=
  .object [
    ("jsonrpc", .str "2.0"),
    ("id", id),
    ("error", .object [("code", .int code), ("message", .str message)])]

def notificationJson (method : String) (params : Json) : Json :=
  .object [("jsonrpc", .str "2.0"), ("method", .str method), ("params", params)]

def toJson : Outgoing → Json
  | result id value => resultJson id value
  | failure id error => failureJson id error.code error.message
  | publication set => notificationJson "textDocument/publishDiagnostics" set.toJson

end Outgoing

end LanguageServer
