import LanguageServer.Proofs.Store
/-!
# Operations step by step

The operations on documents as work that a refusal breaks off (`Store.Work`): what was done before
stays done. The changes of a batch are made one after the other on a copy of the text
(`Text.applyOnCopy`), so a refused one leaves a half-changed copy, and the document as it was.
Whatever else is refused is refused before the store is first changed. So a call that is broken off
leaves the store before it (`Store.run_attend`).
-/

namespace LanguageServer

namespace Text

/-- Work on a text that a refused position breaks off. -/
abbrev Work := EStateM DocumentError Text

/-- The offset that a position denotes in the text as it is now. -/
def seek (position : Position) : Work Nat := do
  match (← get).offset? position with
  | some offset => pure offset
  | none => throw (.invalidPosition position)

def make (change : Change) : Work Unit :=
  match change.range with
  | none => set (Text.ofString change.text)
  | some range => do
    let a ← seek range.start
    let b ← seek range.stop
    modify fun text => text.replace (min a b) (max a b) change.text.toList

def makeAll : List Change → Work Unit
  | [] => pure ()
  | change :: rest => do
    make change
    makeAll rest

/-- Makes a batch of changes on a copy of a text. Where one is refused the copy is dropped. -/
def applyOnCopy (text : Text) (changes : List Change) : Except DocumentError Text :=
  match (makeAll changes).run text with
  | .ok _ copy => .ok copy
  | .error error _ => .error error

theorem run_seek (text : Text) (position : Position) :
    (seek position).run text =
      match text.resolve position with
      | .ok offset => .ok offset text
      | .error error => .error error text := by
  unfold seek resolve
  rw [EStateM.run_bind, EStateM.run_get]
  dsimp only
  cases text.offset? position <;> rfl

theorem run_make (text : Text) (change : Change) :
    (make change).run text =
      match text.apply change with
      | .ok next => .ok () next
      | .error error => .error error text := by
  obtain ⟨_ | range, new⟩ := change
  · rfl
  · simp only [make, apply, EStateM.run_bind, run_seek]
    cases text.resolve range.start with
    | error error => rfl
    | ok a =>
      dsimp only
      cases text.resolve range.stop <;> rfl

/-- On a copy a batch gives what it gives as a whole. -/
theorem applyOnCopy_eq (text : Text) (changes : List Change) :
    text.applyOnCopy changes = text.applyAll changes := by
  induction changes generalizing text with
  | nil => rfl
  | cons change rest ih =>
    simp only [applyOnCopy, makeAll, applyAll, EStateM.run_bind, run_make]
    cases text.apply change with
    | error error => rfl
    | ok next => exact ih next

end Text

namespace Store

/-- Work on a store that a refusal breaks off. -/
abbrev Work := EStateM DocumentError Store Unit

def setDocument (uri : String) (document : Document) : Work :=
  modify fun store => { store with documents := Table.insert uri document store.documents }

def removeDocument (uri : String) : Work :=
  modify fun store => { store with documents := Table.erase uri store.documents }

def enqueue (uri : String) : Work := modify fun store => store.schedule uri

def attendOpening (uri : String) (text : Text) (version : Int32) : Work := do
  match (← get).document? uri with
  | some _ => throw (.duplicate uri)
  | none =>
    setDocument uri ⟨version, text⟩
    enqueue uri

/-- Gives a document its new text, and only then its new version. -/
def attendEdit (uri : String) (changes : List Change) (version : Int32) : Work := do
  match (← get).document? uri with
  | none => throw (.unknown uri)
  | some document =>
    if version ≤ document.version then throw (.stale uri document.version version)
    else
      match document.text.applyOnCopy changes with
      | .error error => throw error
      | .ok text =>
        setDocument uri { document with text := text }
        setDocument uri { version := version, text := text }
        enqueue uri

def attendClosing (uri : String) : Work := do
  let document? := (← get).document? uri
  removeDocument uri
  if document?.isSome then enqueue uri

/-- Does a call, step by step. -/
def attend : Call → Work
  | .openDocument uri text version => attendOpening uri text version
  | .edit uri changes version => attendEdit uri changes version
  | .close uri => attendClosing uri

/-- How a call comes out that gives another store, or is refused and leaves this one. -/
def deliver (store : Store) : Except DocumentError Store → EStateM.Result DocumentError Store Unit
  | .ok next => .ok () next
  | .error error => .error error store

theorem run_attendOpening (store : Store) (uri : String) (text : Text) (version : Int32) :
    (attendOpening uri text version).run store =
      store.deliver (store.openDocument uri text version) := by
  unfold attendOpening openDocument
  rw [EStateM.run_bind, EStateM.run_get]
  dsimp only
  cases store.document? uri <;> rfl

/-- Of the two documents that are set one after the other the second one stays. -/
theorem run_setDocument_twice (store : Store) (uri : String) (first second : Document) :
    (do setDocument uri first; setDocument uri second; enqueue uri : Work).run store =
      .ok () (store.put uri second) := by
  simp only [setDocument, enqueue, EStateM.run_bind, EStateM.run_modify, Table.insert_insert]
  rfl

theorem run_attendEdit (store : Store) (uri : String) (changes : List Change) (version : Int32) :
    (attendEdit uri changes version).run store =
      store.deliver (store.edit uri changes version) := by
  unfold attendEdit
  rw [EStateM.run_bind, EStateM.run_get]
  dsimp only
  cases found : store.document? uri with
  | none =>
    rw [edit_of_closed found]
    rfl
  | some document =>
    rw [edit_of_open found]
    by_cases stale : version ≤ document.version
    · simp only [if_pos stale]
      rfl
    · simp only [if_neg stale, Text.applyOnCopy_eq]
      cases document.text.applyAll changes with
      | error error => rfl
      | ok text => exact run_setDocument_twice _ _ _ _

theorem run_attendClosing (store : Store) (uri : String) :
    (attendClosing uri).run store = store.deliver (.ok (store.close uri)) := by
  unfold attendClosing
  rw [EStateM.run_bind, EStateM.run_get]
  dsimp only
  cases found : store.document? uri with
  | none =>
    have same := Table.erase_of_lookup_eq_none found
    rw [close_of_closed found]
    simp only [removeDocument, EStateM.run_bind, EStateM.run_modify, same]
    rfl
  | some document =>
    rw [close_of_open found]
    rfl

/-- A call that is done step by step leaves what it leaves as a whole, and where it is broken off
the store as it was. -/
theorem run_attend (store : Store) (call : Call) :
    (attend call).run store = store.deliver (store.perform call) := by
  cases call with
  | openDocument uri text version => exact run_attendOpening store uri text version
  | edit uri changes version => exact run_attendEdit store uri changes version
  | close uri => exact run_attendClosing store uri

/-- The store after a call that is done step by step, and the reply to it. -/
def attended (store : Store) (call : Call) : Store × Except DocumentError Unit :=
  match (attend call).run store with
  | .ok _ next => (next, .ok ())
  | .error error next => (next, .error error)

end Store

end LanguageServer
