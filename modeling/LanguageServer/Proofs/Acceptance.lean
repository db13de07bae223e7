import LanguageServer.Proofs.Atomicity
import LanguageServer.Proofs.Replay
import LanguageServer.Session
/-!
# What is accepted and what is refused

A batch of changes is possible if both ends of every range in it denote offsets in what the changes
before leave (`Acceptable`); if it is not, the refusal names the first end that denotes none
(`Rejects`). An operation on documents is done as a whole or not at all: `Store.respond` is the
store after it, with the reply, and `Store.edit_all_or_nothing` says which of the two happens when,
and what it leaves.
-/

namespace LanguageServer

/-- Both ends of every range in a batch denote offsets in what the changes before it make of some
characters. -/
def Acceptable (chars : List Char) (changes : List Change) : Prop :=
  ∀ front change back range, changes = front ++ change :: back → change.range = some range →
    ∃ middle, Replays chars front middle ∧
      (∃ a, Text.resolve ⟨middle⟩ range.start = .ok a) ∧
      ∃ b, Text.resolve ⟨middle⟩ range.stop = .ok b

/-- The end of a range that is refused in a text, which is the start unless only the other end is
refused. -/
def Text.Refuses (text : Text) (range : Range) (position : Position) : Prop :=
  text.resolve range.start = .error (.invalidPosition range.start) ∧ position = range.start ∨
    (∃ a, text.resolve range.start = .ok a) ∧
      text.resolve range.stop = .error (.invalidPosition range.stop) ∧ position = range.stop

/-- The changes of a batch are possible up to one, of whose range an end is refused. -/
def Rejects (chars : List Char) (changes : List Change) (position : Position) : Prop :=
  ∃ front change back range middle, changes = front ++ change :: back ∧
    change.range = some range ∧ Replays chars front middle ∧
    Text.Refuses ⟨middle⟩ range position

namespace Text

/-! ## Batches -/

theorem exists_apply_iff {text : Text} {change : Change} :
    (∃ next, text.apply change = .ok next) ↔ ∀ range, change.range = some range →
      (∃ a, text.resolve range.start = .ok a) ∧ ∃ b, text.resolve range.stop = .ok b := by
  obtain ⟨_ | range, new⟩ := change
  · simp [apply]
  · simp only [apply, bind_eq_ok]
    constructor
    · rintro ⟨next, a, start, b, stop, -⟩ _ ⟨⟩
      exact ⟨⟨a, start⟩, b, stop⟩
    · intro h
      obtain ⟨⟨a, start⟩, b, stop⟩ := h range rfl
      exact ⟨_, a, start, b, stop, rfl⟩

theorem apply_eq_error {text : Text} {change : Change} {error : DocumentError} :
    text.apply change = .error error ↔ ∃ range position, change.range = some range ∧
      text.Refuses range position ∧ error = .invalidPosition position := by
  obtain ⟨_ | range, new⟩ := change
  · simp [apply]
  · simp only [apply, bind_eq_error]
    constructor
    · rintro (start | ⟨a, start, stop | ⟨b, -, ⟨⟩⟩⟩)
      · obtain ⟨none, rfl⟩ := resolve_eq_error.mp start
        exact ⟨range, range.start, rfl, .inl ⟨start, rfl⟩, rfl⟩
      · obtain ⟨none, rfl⟩ := resolve_eq_error.mp stop
        exact ⟨range, range.stop, rfl, .inr ⟨⟨a, start⟩, stop, rfl⟩, rfl⟩
    · rintro ⟨_, position, ⟨⟩, ⟨start, rfl⟩ | ⟨⟨a, start⟩, stop, rfl⟩, rfl⟩
      · exact .inl start
      · exact .inr ⟨a, start, .inl stop⟩

/-- A batch fails with its first change that fails. -/
theorem applyAll_eq_error {text : Text} {changes : List Change} {error : DocumentError} :
    text.applyAll changes = .error error ↔ ∃ front change back middle,
      changes = front ++ change :: back ∧ text.applyAll front = .ok middle ∧
      middle.apply change = .error error := by
  induction changes generalizing text with
  | nil => simp [applyAll]
  | cons change rest ih =>
    rw [applyAll, bind_eq_error]
    constructor
    · rintro (here | ⟨next, applied, later⟩)
      · exact ⟨[], change, rest, text, rfl, rfl, here⟩
      · obtain ⟨front, failing, back, middle, rfl, before, failed⟩ := ih.mp later
        exact ⟨change :: front, failing, back, middle, rfl,
          applyAll_cons_eq_ok.mpr ⟨next, applied, before⟩, failed⟩
    · rintro ⟨_ | ⟨first, front⟩, failing, back, middle, parts, before, failed⟩
      · cases before
        obtain ⟨rfl, rfl⟩ := List.cons.inj parts
        exact .inl failed
      · obtain ⟨rfl, rfl⟩ := List.cons.inj parts
        obtain ⟨next, applied, before⟩ := applyAll_cons_eq_ok.mp before
        exact .inr ⟨next, applied, ih.mpr ⟨front, failing, back, middle, rfl, before, failed⟩⟩

theorem applyAll_eq_error_iff_rejects {text : Text} {changes : List Change}
    {error : DocumentError} :
    text.applyAll changes = .error error ↔
      ∃ position, Rejects text.chars changes position ∧ error = .invalidPosition position := by
  rw [applyAll_eq_error]
  simp only [apply_eq_error, applyAll_eq_ok_iff_replays]
  constructor
  · rintro ⟨front, change, back, middle, parts, before, range, position, ranged, refused, rfl⟩
    exact ⟨position,
      ⟨front, change, back, range, middle.chars, parts, ranged, before, refused⟩, rfl⟩
  · rintro ⟨position, ⟨front, change, back, range, middle, parts, ranged, before, refused⟩, rfl⟩
    exact ⟨front, change, back, ⟨middle⟩, parts, before, range, position, ranged, refused, rfl⟩

/-- A batch is made if it is acceptable. -/
theorem exists_applyAll_iff_acceptable {text : Text} {changes : List Change} :
    (∃ next, text.applyAll changes = .ok next) ↔ Acceptable text.chars changes := by
  constructor
  · rintro ⟨next, applied⟩ front change back range rfl ranged
    obtain ⟨middle, before, after⟩ := replays_append.mp (applyAll_eq_ok_iff_replays.mp applied)
    have rest : Text.applyAll ⟨middle⟩ (change :: back) = .ok next :=
      applyAll_eq_ok_iff_replays.mpr after
    obtain ⟨further, possible, -⟩ := applyAll_cons_eq_ok.mp rest
    exact ⟨middle, before, exists_apply_iff.mp ⟨further, possible⟩ range ranged⟩
  · intro acceptable
    cases applied : text.applyAll changes with
    | ok next => exact ⟨next, rfl⟩
    | error error =>
      -- The change that fails first would have an end that is refused and accepted.
      obtain ⟨front, change, back, middle, parts, before, failed⟩ := applyAll_eq_error.mp applied
      have possible : ∃ next, middle.apply change = .ok next := by
        refine exists_apply_iff.mpr fun range ranged => ?_
        obtain ⟨chars, replayed, ends⟩ := acceptable front change back range parts ranged
        have made : text.applyAll front = .ok ⟨chars⟩ := applyAll_eq_ok_iff_replays.mpr replayed
        cases before.symm.trans made
        exact ends
      obtain ⟨next, possible⟩ := possible
      cases failed.symm.trans possible

end Text

namespace Store

/-! ## Operations -/

theorem document_eq_error {store : Store} {uri : String} {error : DocumentError} :
    store.document uri = .error error ↔ store.document? uri = none ∧ error = .unknown uri := by
  unfold Store.document
  cases store.document? uri with
  | none => simp [eq_comm]
  | some found => simp

theorem openDocument_eq_error {store : Store} {uri : String} {text : Text} {version : Int32}
    {error : DocumentError} :
    store.openDocument uri text version = .error error ↔
      (∃ document, store.document? uri = some document) ∧ error = .duplicate uri := by
  unfold openDocument
  cases store.document? uri with
  | none => simp
  | some found => simp [eq_comm]

/-- An edit is refused for the uri first, then for the version, and only then for the changes. -/
theorem edit_eq_error {store : Store} {uri : String} {changes : List Change} {version : Int32}
    {error : DocumentError} :
    store.edit uri changes version = .error error ↔
      store.document? uri = none ∧ error = .unknown uri ∨
      ∃ document, store.document? uri = some document ∧
        (version ≤ document.version ∧ error = .stale uri document.version version ∨
          document.version < version ∧ document.text.applyAll changes = .error error) := by
  unfold edit
  rw [bind_eq_error]
  refine or_congr document_eq_error (exists_congr fun document => ?_)
  rw [document_eq_ok]
  refine and_congr_right fun _ => ?_
  by_cases stale : version ≤ document.version
  · simp [stale, Int32.not_lt.mpr stale, eq_comm]
  · simp [stale, Int32.not_le.mp stale, bind_eq_error]

/-- The store after a call, and the reply to it. A refused call leaves the store behind that it
found. -/
def respond (store : Store) (call : Call) : Store × Except DocumentError Unit :=
  match store.perform call with
  | .ok next => (next, .ok ())
  | .error error => (store, .error error)

theorem respond_eq_ok {store : Store} {call : Call} :
    (store.respond call).2 = .ok () ↔ ∃ next, store.perform call = .ok next := by
  unfold respond
  cases store.perform call <;> simp

theorem respond_eq_error {store : Store} {call : Call} {error : DocumentError} :
    (store.respond call).2 = .error error ↔ store.perform call = .error error := by
  unfold respond
  cases store.perform call <;> simp

theorem respond_of_ok {store next : Store} {call : Call} (h : store.perform call = .ok next) :
    store.respond call = (next, .ok ()) := by
  rw [respond, h]

theorem respond_of_error {store : Store} {call : Call} {error : DocumentError}
    (h : store.perform call = .error error) : store.respond call = (store, .error error) := by
  rw [respond, h]

/-- Nothing of a refused call is left either if it is done step by step, and broken off where it is
refused. -/
theorem attended_eq_respond (store : Store) (call : Call) :
    store.attended call = store.respond call := by
  unfold attended respond
  rw [run_attend]
  cases store.perform call <;> rfl

theorem pending_schedule (store : Store) (uri : String) :
    (store.schedule uri).pending =
      if uri ∈ store.pending then store.pending else store.pending ++ [uri] := by
  unfold schedule
  split <;> rfl

theorem pending_put (store : Store) (uri : String) (document : Document) :
    (store.put uri document).pending =
      if uri ∈ store.pending then store.pending else store.pending ++ [uri] :=
  pending_schedule _ uri

end Store

/-! ## Operations that a client asks for -/

namespace Workspace

variable {workspace : Workspace} {params : Json}

theorem store_takeOpening {opening : Opening} (read : Opening.ofJson params = .ok opening) :
    (workspace.takeOpening params).store = (workspace.store.respond
      (.openDocument opening.uri (.ofString opening.text) opening.version)).1 := by
  simp only [takeOpening, read, Workspace.openDocument, Store.respond, Store.perform]
  cases workspace.store.openDocument opening.uri (.ofString opening.text) opening.version <;> rfl

theorem store_takeEdit {edit : Edit} (read : Edit.ofJson params = .ok edit) :
    (workspace.takeEdit params).store = (workspace.store.respond
      (.edit edit.uri edit.changes edit.version)).1 := by
  simp only [takeEdit, read, Workspace.edit, Store.respond, Store.perform]
  cases workspace.store.edit edit.uri edit.changes edit.version <;> rfl

theorem store_takeClosing {uri : String} (read : params.documentUri = .ok uri) :
    (workspace.takeClosing params).store = (workspace.store.respond (.close uri)).1 := by
  simp only [takeClosing, read, Workspace.close, Store.respond, Store.perform]

end Workspace

/-- An edit is done if the uri is open, the version newer and the batch acceptable. Then it gives
the uri the new version and the text that the batch makes, and queues the uri unless it waits
already; nothing else changes. Otherwise nothing changes at all, and the reply says why: the uri is
not open, or the version is not newer, or else which position is the first to be refused. Opening an
open uri and closing one that is not open change nothing either. All this is so as well if a call is
done step by step, and broken off where it is refused. A session that a client asks for one of the
three goes on with just what it leaves. -/
theorem Store.edit_all_or_nothing (store : Store) (uri : String) (changes : List Change)
    (version : Int32) :
    let outcome := store.respond (.edit uri changes version)
    (outcome.2 = .ok () ↔ ∃ document, store.document? uri = some document ∧
      document.version < version ∧ Acceptable document.text.chars changes) ∧
    (outcome.2 = .ok () → ∃ document chars, store.document? uri = some document ∧
      Replays document.text.chars changes chars ∧
      outcome.1.document? uri = some ⟨version, ⟨chars⟩⟩ ∧
      (∀ key, key ≠ uri → outcome.1.document? key = store.document? key) ∧
      outcome.1.pending =
        if uri ∈ store.pending then store.pending else store.pending ++ [uri]) ∧
    (∀ error, outcome.2 = .error error ↔
      store.document? uri = none ∧ error = .unknown uri ∨
      ∃ document, store.document? uri = some document ∧
        (version ≤ document.version ∧ error = .stale uri document.version version ∨
          document.version < version ∧ ∃ position,
            Rejects document.text.chars changes position ∧ error = .invalidPosition position)) ∧
    (∀ error, outcome.2 = .error error → outcome.1 = store) ∧
    (∀ text, (∃ document, store.document? uri = some document) →
      store.respond (.openDocument uri text version) = (store, .error (.duplicate uri))) ∧
    (store.document? uri = none → store.respond (.close uri) = (store, .ok ())) ∧
    (∀ call, store.attended call = store.respond call) ∧
    ∀ (workspace : Workspace) (params : Json), workspace.store = store →
      (∀ edit, Edit.ofJson params = .ok edit → (workspace.takeEdit params).store =
        (store.respond (.edit edit.uri edit.changes edit.version)).1) ∧
      (∀ opening, Opening.ofJson params = .ok opening → (workspace.takeOpening params).store =
        (store.respond
          (.openDocument opening.uri (.ofString opening.text) opening.version)).1) ∧
      ∀ uri, params.documentUri = .ok uri →
        (workspace.takeClosing params).store = (store.respond (.close uri)).1 := by
  intro outcome
  refine ⟨?_, ?_, ?_, ?_, ?_, ?_, store.attended_eq_respond, ?_⟩
  · simp only [outcome, respond_eq_ok, perform, edit_eq_ok]
    constructor
    · rintro ⟨_, document, text, found, newer, applied, -⟩
      exact ⟨document, found, newer, Text.exists_applyAll_iff_acceptable.mp ⟨text, applied⟩⟩
    · rintro ⟨document, found, newer, acceptable⟩
      obtain ⟨text, applied⟩ := Text.exists_applyAll_iff_acceptable.mpr acceptable
      exact ⟨_, document, text, found, newer, applied, rfl⟩
  · intro accepted
    obtain ⟨next, performed⟩ := respond_eq_ok.mp accepted
    obtain ⟨document, text, found, newer, applied, rfl⟩ := edit_eq_ok.mp performed
    rw [show outcome = _ from respond_of_ok performed]
    refine ⟨document, text.chars, found, Text.applyAll_eq_ok_iff_replays.mp applied, ?_, ?_,
      pending_put store uri _⟩
    · exact (document?_put store uri uri _).trans (if_pos rfl)
    · intro key other
      exact (document?_put store uri key _).trans (if_neg other)
  · intro error
    rw [respond_eq_error, perform, edit_eq_error]
    simp only [Text.applyAll_eq_error_iff_rejects]
  · intro error refused
    exact congrArg Prod.fst (respond_of_error (respond_eq_error.mp refused))
  · intro text opened
    exact respond_of_error (openDocument_eq_error.mpr ⟨opened, rfl⟩)
  · intro absent
    exact respond_of_ok (congrArg Except.ok (close_of_closed absent))
  · rintro workspace params rfl
    exact ⟨fun _ => Workspace.store_takeEdit, fun _ => Workspace.store_takeOpening,
      fun _ => Workspace.store_takeClosing⟩

end LanguageServer
