import LanguageServer.Document
import LanguageServer.Table
/-!
The open documents by uri, and the queue of uris whose diagnostics are out of date. A refused
operation leaves both as they are; each other one that touches a document queues its uri, once, at
the end.
-/

namespace LanguageServer

structure Store where
  documents : Table Document
  pending : List String

namespace Store

def empty : Store := ⟨[], []⟩

def document? (store : Store) (uri : String) : Option Document := Table.lookup uri store.documents

/-- The open document of a uri, or the refusal of the uri. -/
def document (store : Store) (uri : String) : Except DocumentError Document :=
  match store.document? uri with
  | some document => .ok document
  | none => .error (.unknown uri)

/-- Queues a uri unless it waits already. -/
def schedule (store : Store) (uri : String) : Store :=
  if uri ∈ store.pending then store else { store with pending := store.pending ++ [uri] }

/-- Queues the uri of every open document, in ascending order. -/
def scheduleAll (store : Store) : Store := (Table.keys store.documents).foldl schedule store

/-- Sets the document of a uri and queues the uri. -/
def put (store : Store) (uri : String) (document : Document) : Store :=
  { store with documents := Table.insert uri document store.documents }.schedule uri

def openDocument (store : Store) (uri : String) (text : Text) (version : Int32) :
    Except DocumentError Store :=
  match store.document? uri with
  | some _ => .error (.duplicate uri)
  | none => .ok (store.put uri ⟨version, text⟩)

/-- Applies a batch of changes, which has to raise the version. -/
def edit (store : Store) (uri : String) (changes : List Change) (version : Int32) :
    Except DocumentError Store := do
  let document ← store.document uri
  if version ≤ document.version then .error (.stale uri document.version version)
  else
    let text ← document.text.applyAll changes
    .ok (store.put uri ⟨version, text⟩)

/-- Closing a document that is not open does nothing. -/
def close (store : Store) (uri : String) : Store :=
  match store.document? uri with
  | some _ => { store with documents := Table.erase uri store.documents }.schedule uri
  | none => store

/-- Empties the queue. -/
def drain (store : Store) : List String × Store := (store.pending, { store with pending := [] })

end Store

end LanguageServer
