import Mathlib.Data.List.Forall2
import LanguageServer.Proofs.Field
import LanguageServer.Proofs.Message
import LanguageServer.Wire.Edit
/-!
# Decoding of what clients say about documents

What parameters say, told by their members: `Opening.HeldBy`, `Edit.HeldBy`, `Json.NamesDocument`
and `Cursor.HeldBy`. Decoding gives just what the parameters hold (`Opening.ofJson_eq_ok` and so
on). For edits `Json.IsEdit` tells which parameters hold any: decoding gives one change for each
entry, and refuses all of them if one is bad (`Edit.decoding`).
-/

namespace LanguageServer

/-! ## What a value holds -/

def Position.HeldBy (position : Position) (value : Json) : Prop :=
  value.get? "line" = some (.int position.line.toNat) ∧
    value.get? "character" = some (.int position.character.toNat)

def Range.HeldBy (range : Range) (value : Json) : Prop :=
  ∃ start stop, value.get? "start" = some start ∧ value.get? "end" = some stop ∧
    range.start.HeldBy start ∧ range.stop.HeldBy stop

/-- An entry holds a change of the whole text if it has no range, or null for one. -/
def Change.HeldBy (change : Change) (value : Json) : Prop :=
  value.get? "text" = some (.str change.text) ∧
    match change.range with
    | none => value.get? "range" = none ∨ value.get? "range" = some .null
    | some range => ∃ member, value.get? "range" = some member ∧ range.HeldBy member

/-- Parameters hold an edit whose changes their entries hold, each entry one and in order. -/
def Edit.HeldBy (edit : Edit) (params : Json) : Prop :=
  ∃ document entries, params.get? "textDocument" = some document ∧
    document.get? "uri" = some (.str edit.uri) ∧
    document.get? "version" = some (.int edit.version.toInt) ∧
    params.get? "contentChanges" = some (.arr entries) ∧
    List.Forall₂ Change.HeldBy edit.changes entries

/-- Parameters name the document of a uri. -/
def Json.NamesDocument (params : Json) (uri : String) : Prop :=
  ∃ document, params.get? "textDocument" = some document ∧ document.get? "uri" = some (.str uri)

/-- Parameters hold an opening. A language that is not given as a string counts as none. -/
def Opening.HeldBy (opening : Opening) (params : Json) : Prop :=
  ∃ document, params.get? "textDocument" = some document ∧
    document.get? "uri" = some (.str opening.uri) ∧
    document.get? "text" = some (.str opening.text) ∧
    document.get? "version" = some (.int opening.version.toInt) ∧
    ∀ id, opening.languageId = some id ↔ document.get? "languageId" = some (.str id)

def Cursor.HeldBy (cursor : Cursor) (params : Json) : Prop :=
  params.NamesDocument cursor.uri ∧
    ∃ position, params.get? "position" = some position ∧ cursor.position.HeldBy position

/-! ## Values that hold something -/

namespace Json

/-- A member that is an integer between two bounds. -/
def HasInt (value : Json) (name : String) (least greatest : Int) : Prop :=
  ∃ i, value.get? name = some (.int i) ∧ least ≤ i ∧ i ≤ greatest

def IsPosition (value : Json) : Prop :=
  value.HasInt "line" 0 4294967295 ∧ value.HasInt "character" 0 4294967295

def IsRange (value : Json) : Prop :=
  ∃ start stop, value.get? "start" = some start ∧ value.get? "end" = some stop ∧
    start.IsPosition ∧ stop.IsPosition

/-- An entry of a batch of changes: a text, and no range, or null for one, or a range. -/
def IsChange (value : Json) : Prop :=
  (∃ text, value.get? "text" = some (.str text)) ∧
    ∀ member, value.get? "range" = some member → member = .null ∨ member.IsRange

def IsEdit (params : Json) : Prop :=
  (∃ document, params.get? "textDocument" = some document ∧
    (∃ uri, document.get? "uri" = some (.str uri)) ∧
    document.HasInt "version" (-2147483648) 2147483647) ∧
  ∃ entries, params.get? "contentChanges" = some (.arr entries) ∧ ∀ entry ∈ entries, entry.IsChange

end Json

/-! ## Decoding gives what a value holds -/

theorem Position.ofJson_eq_ok {position : Position} {value : Json} :
    ofJson value = .ok position ↔ position.HeldBy value := by
  unfold ofJson HeldBy
  simp only [bind_eq_ok, Json.uint32Field_eq_ok]
  constructor
  · rintro ⟨line, line_eq, character, character_eq, ⟨⟩⟩
    exact ⟨line_eq, character_eq⟩
  · rintro ⟨line_eq, character_eq⟩
    exact ⟨_, line_eq, _, character_eq, rfl⟩

theorem Range.ofJson_eq_ok {range : Range} {value : Json} :
    ofJson value = .ok range ↔ range.HeldBy value := by
  unfold ofJson HeldBy
  simp only [bind_eq_ok, Json.field_eq_ok, Position.ofJson_eq_ok]
  constructor
  · rintro ⟨first, first_eq, start, start_held, last, last_eq, stop, stop_held, ⟨⟩⟩
    exact ⟨first, last, first_eq, last_eq, start_held, stop_held⟩
  · rintro ⟨first, last, first_eq, last_eq, start_held, stop_held⟩
    exact ⟨first, first_eq, _, start_held, last, last_eq, _, stop_held, rfl⟩

theorem Range.HeldBy.ne_null {range : Range} {value : Json} (h : range.HeldBy value) :
    value ≠ .null := by
  rintro rfl
  obtain ⟨start, stop, absent, -⟩ := h
  cases absent

namespace Change

theorem ofJson_eq_ok {change : Change} {value : Json} :
    ofJson value = .ok change ↔ change.HeldBy value := by
  unfold ofJson HeldBy
  simp only [bind_eq_ok, Json.stringField_eq_ok]
  constructor
  · rintro ⟨text, texted, read⟩
    split at read
    · rename_i absent
      cases read
      exact ⟨texted, .inl absent⟩
    · rename_i null
      cases read
      exact ⟨texted, .inr null⟩
    · rename_i member _ found
      obtain ⟨range, held, ⟨⟩⟩ := bind_eq_ok.mp read
      exact ⟨texted, member, found, Range.ofJson_eq_ok.mp held⟩
  · obtain ⟨_ | range, text⟩ := change
    · rintro ⟨texted, absent | null⟩
      · exact ⟨text, texted, by rw [absent]⟩
      · exact ⟨text, texted, by rw [null]⟩
    · rintro ⟨texted, member, found, held⟩
      refine ⟨text, texted, ?_⟩
      rw [found]
      split
      · rename_i absent
        cases absent
      · rename_i null
        exact absurd (Option.some.inj null) held.ne_null
      · rename_i other _ same
        cases same
        exact bind_eq_ok.mpr ⟨range, Range.ofJson_eq_ok.mpr held, rfl⟩

theorem listOfJson_eq_ok {changes : List Change} {entries : List Json} :
    listOfJson entries = .ok changes ↔ List.Forall₂ HeldBy changes entries := by
  induction entries generalizing changes with
  | nil => simp [listOfJson, eq_comm]
  | cons entry rest ih =>
    unfold listOfJson
    simp only [bind_eq_ok, ofJson_eq_ok, ih]
    constructor
    · rintro ⟨change, held, others, all, ⟨⟩⟩
      exact .cons held all
    · rintro (_ | ⟨held, all⟩)
      exact ⟨_, held, _, all, rfl⟩

end Change

theorem Edit.ofJson_eq_ok {edit : Edit} {params : Json} :
    ofJson params = .ok edit ↔ edit.HeldBy params := by
  unfold ofJson HeldBy
  simp only [bind_eq_ok, Json.field_eq_ok, Json.arrayField_eq_ok, Json.stringField_eq_ok,
    Json.int32Field_eq_ok, Change.listOfJson_eq_ok]
  constructor
  · rintro ⟨document, found, entries, listed, changes, all, uri, named, version, numbered, ⟨⟩⟩
    exact ⟨document, entries, found, named, numbered, listed, all⟩
  · rintro ⟨document, entries, found, named, numbered, listed, all⟩
    exact ⟨document, found, entries, listed, _, all, _, named, _, numbered, rfl⟩

theorem Json.documentUri_eq_ok {params : Json} {uri : String} :
    params.documentUri = .ok uri ↔ params.NamesDocument uri := by
  unfold documentUri NamesDocument
  simp only [bind_eq_ok, field_eq_ok, stringField_eq_ok]

theorem Cursor.ofJson_eq_ok {cursor : Cursor} {params : Json} :
    ofJson params = .ok cursor ↔ cursor.HeldBy params := by
  unfold ofJson HeldBy
  simp only [bind_eq_ok, Json.documentUri_eq_ok, Json.field_eq_ok, Position.ofJson_eq_ok]
  constructor
  · rintro ⟨uri, named, value, found, position, held, ⟨⟩⟩
    exact ⟨named, value, found, held⟩
  · rintro ⟨named, value, found, held⟩
    exact ⟨_, named, value, found, _, held, rfl⟩

theorem Opening.ofJson_eq_ok {opening : Opening} {params : Json} :
    ofJson params = .ok opening ↔ opening.HeldBy params := by
  unfold ofJson HeldBy
  simp only [bind_eq_ok, Json.field_eq_ok, Json.stringField_eq_ok, Json.int32Field_eq_ok,
    ← Json.bind_str?_eq_some, ← Option.ext_iff]
  constructor
  · rintro ⟨document, found, uri, named, text, texted, version, numbered, ⟨⟩⟩
    exact ⟨document, found, named, texted, numbered, rfl⟩
  · obtain ⟨uri, text, version, language⟩ := opening
    rintro ⟨document, found, named, texted, numbered, rfl⟩
    exact ⟨document, found, _, named, _, texted, _, numbered, rfl⟩

/-! ## What can be decoded -/

namespace Json

theorem hasInt_iff_uint32 {value : Json} {name : String} :
    value.HasInt name 0 4294967295 ↔ ∃ n : UInt32, value.get? name = some (.int n.toNat) := by
  constructor
  · rintro ⟨i, found, low, high⟩
    refine ⟨.ofNat i.toNat, ?_⟩
    rw [toNat_ofNat_toNat low (Int.lt_add_one_of_le high), found]
  · rintro ⟨n, found⟩
    have bound := n.toNat_lt
    exact ⟨n.toNat, found, by omega, by omega⟩

theorem hasInt_iff_int32 {value : Json} {name : String} :
    value.HasInt name (-2147483648) 2147483647 ↔
      ∃ n : Int32, value.get? name = some (.int n.toInt) := by
  constructor
  · rintro ⟨i, found, low, high⟩
    refine ⟨.ofInt i, ?_⟩
    rw [Int32.toInt_ofInt_of_le low (Int.lt_add_one_of_le high), found]
  · rintro ⟨n, found⟩
    exact ⟨n.toInt, found, n.le_toInt, Int.le_of_lt_add_one n.toInt_lt⟩

theorem isPosition_iff {value : Json} :
    value.IsPosition ↔ ∃ position : Position, position.HeldBy value := by
  unfold IsPosition
  rw [hasInt_iff_uint32, hasInt_iff_uint32]
  constructor
  · rintro ⟨⟨line, line_eq⟩, character, character_eq⟩
    exact ⟨⟨line, character⟩, line_eq, character_eq⟩
  · rintro ⟨position, line_eq, character_eq⟩
    exact ⟨⟨_, line_eq⟩, _, character_eq⟩

theorem isRange_iff {value : Json} : value.IsRange ↔ ∃ range : Range, range.HeldBy value := by
  unfold IsRange
  simp only [isPosition_iff]
  constructor
  · rintro ⟨first, last, first_eq, last_eq, ⟨start, start_held⟩, stop, stop_held⟩
    exact ⟨⟨start, stop⟩, first, last, first_eq, last_eq, start_held, stop_held⟩
  · rintro ⟨range, first, last, first_eq, last_eq, start_held, stop_held⟩
    exact ⟨first, last, first_eq, last_eq, ⟨_, start_held⟩, _, stop_held⟩

theorem isChange_iff {entry : Json} :
    entry.IsChange ↔ ∃ change : Change, change.HeldBy entry := by
  unfold IsChange
  simp only [isRange_iff]
  constructor
  · rintro ⟨⟨text, texted⟩, ranged⟩
    cases found : entry.get? "range" with
    | none => exact ⟨⟨none, text⟩, texted, .inl found⟩
    | some member =>
      rcases ranged member found with rfl | ⟨range, held⟩
      · exact ⟨⟨none, text⟩, texted, .inr found⟩
      · exact ⟨⟨some range, text⟩, texted, member, found, held⟩
  · rintro ⟨⟨_ | range, text⟩, texted, ranged⟩
    · refine ⟨⟨text, texted⟩, fun member found => .inl ?_⟩
      rcases ranged with absent | null
      · cases absent.symm.trans found
      · exact Option.some.inj (found.symm.trans null)
    · obtain ⟨member, found, held⟩ := ranged
      refine ⟨⟨text, texted⟩, fun other found' => .inr ⟨range, ?_⟩⟩
      rwa [← Option.some.inj (found.symm.trans found')]

/-- Entries hold changes together if each of them holds one. -/
theorem exists_changes_iff {entries : List Json} :
    (∃ changes, List.Forall₂ Change.HeldBy changes entries) ↔
      ∀ entry ∈ entries, entry.IsChange := by
  induction entries with
  | nil => simp
  | cons entry rest ih =>
    rw [List.forall_mem_cons, ← ih, isChange_iff]
    constructor
    · rintro ⟨_, _ | ⟨held, all⟩⟩
      exact ⟨⟨_, held⟩, _, all⟩
    · rintro ⟨⟨change, held⟩, changes, all⟩
      exact ⟨change :: changes, .cons held all⟩

theorem isEdit_iff {params : Json} : params.IsEdit ↔ ∃ edit : Edit, edit.HeldBy params := by
  unfold IsEdit
  simp only [hasInt_iff_int32, ← exists_changes_iff]
  constructor
  · rintro ⟨⟨document, found, ⟨uri, named⟩, version, numbered⟩, entries, listed, changes, all⟩
    exact ⟨⟨uri, version, changes⟩, document, entries, found, named, numbered, listed, all⟩
  · rintro ⟨edit, document, entries, found, named, numbered, listed, all⟩
    exact ⟨⟨document, found, ⟨_, named⟩, _, numbered⟩, entries, listed, _, all⟩

end Json

/-! ## What is written -/

theorem Position.heldBy_toJson (position : Position) : position.HeldBy position.toJson := by
  simp [HeldBy, toJson, Json.object, Json.get?, Json.nat, Table.ofList, Table.lookup_insert]

theorem Range.heldBy_toJson (range : Range) : range.HeldBy range.toJson := by
  refine ⟨range.start.toJson, range.stop.toJson, ?_, ?_, range.start.heldBy_toJson,
    range.stop.heldBy_toJson⟩ <;>
    simp [toJson, Json.object, Json.get?, Table.ofList, Table.lookup_insert]

/-- An entry writes a change: its text, and its range the way ranges are written. A change without a
range is written without one, or with null. -/
def Change.WrittenIn (change : Change) (entry : Json) : Prop :=
  entry.get? "text" = some (.str change.text) ∧
    match change.range with
    | none => entry.get? "range" = none ∨ entry.get? "range" = some .null
    | some range => entry.get? "range" = some range.toJson

theorem Change.WrittenIn.heldBy {change : Change} {entry : Json} (h : change.WrittenIn entry) :
    change.HeldBy entry := by
  obtain ⟨_ | range, text⟩ := change
  · exact h
  · exact ⟨h.1, range.toJson, h.2, range.heldBy_toJson⟩

namespace Edit

/-- Parameters that write an edit, with one entry for each of its changes. -/
def WrittenIn (edit : Edit) (params : Json) : Prop :=
  ∃ document entries, params.get? "textDocument" = some document ∧
    document.get? "uri" = some (.str edit.uri) ∧
    document.get? "version" = some (.int edit.version.toInt) ∧
    params.get? "contentChanges" = some (.arr entries) ∧
    List.Forall₂ Change.WrittenIn edit.changes entries

theorem WrittenIn.heldBy {edit : Edit} {params : Json} (h : edit.WrittenIn params) :
    edit.HeldBy params := by
  obtain ⟨document, entries, found, named, numbered, listed, all⟩ := h
  exact ⟨document, entries, found, named, numbered, listed,
    all.imp fun _ _ => Change.WrittenIn.heldBy⟩

theorem exists_error_of_not_isEdit {params : Json} (h : ¬params.IsEdit) :
    ∃ error, ofJson params = .error error := by
  cases read : ofJson params with
  | ok edit => exact absurd (Json.isEdit_iff.mpr ⟨edit, ofJson_eq_ok.mp read⟩) h
  | error error => exact ⟨error, rfl⟩

/-- Parameters that write an edit are decoded to it, whatever else they hold. Any parameters are
decoded to the edit that they hold and to no other: each entry gives the change that it holds, in
order. They are decoded only if they name a document and a version of thirty-two bits, and every
entry has a text and no range, or null for one, or a range with lines and columns of thirty-two
bits. One other entry anywhere and there is an error. -/
theorem decoding :
    (∀ (edit : Edit) (params : Json), edit.WrittenIn params → ofJson params = .ok edit) ∧
    ∀ params : Json,
      ((∃ edit, ofJson params = .ok edit) ↔ params.IsEdit) ∧
      (∀ edit, ofJson params = .ok edit ↔ edit.HeldBy params) ∧
      (∀ edit entries, ofJson params = .ok edit →
        params.get? "contentChanges" = some (.arr entries) →
        List.Forall₂ Change.HeldBy edit.changes entries) ∧
      ∀ entries entry, params.get? "contentChanges" = some (.arr entries) → entry ∈ entries →
        ¬entry.IsChange → ∃ error, ofJson params = .error error := by
  refine ⟨fun edit params written => ofJson_eq_ok.mpr written.heldBy, fun params => ?_⟩
  refine ⟨?_, fun _ => ofJson_eq_ok, ?_, ?_⟩
  · simp only [ofJson_eq_ok, Json.isEdit_iff]
  · intro edit entries read listed
    obtain ⟨_, others, -, -, -, listed', all⟩ := ofJson_eq_ok.mp read
    cases listed.symm.trans listed'
    exact all
  · intro entries entry listed member bad
    refine exists_error_of_not_isEdit ?_
    rintro ⟨-, others, listed', good⟩
    cases listed.symm.trans listed'
    exact bad (good entry member)

/-- An edit at the bounds of its numbers, with a change of each kind. -/
def boundaryEdit : Edit where
  uri := "file:///a"
  version := -2147483648
  changes := [⟨some ⟨⟨4294967295, 0⟩, ⟨0, 4294967295⟩⟩, "x"⟩, ⟨none, ""⟩, ⟨none, "y"⟩]

def boundaryParams : Json := .object [
  ("textDocument", .object [("uri", .str "file:///a"), ("version", .int (-2147483648))]),
  ("contentChanges", .arr [
    .object [("range", (Range.mk ⟨4294967295, 0⟩ ⟨0, 4294967295⟩).toJson), ("rangeLength", .int 7),
      ("text", .str "x")],
    .object [("text", .str "")],
    .object [("range", .null), ("text", .str "y")]])]

theorem decoding_boundary :
    boundaryEdit.WrittenIn boundaryParams ∧ ofJson boundaryParams = .ok boundaryEdit := by
  have written : boundaryEdit.WrittenIn boundaryParams := by
    refine ⟨_, _, rfl, rfl, rfl, rfl, ?_⟩
    refine .cons ⟨rfl, rfl⟩ (.cons ⟨rfl, .inl rfl⟩ (.cons ⟨rfl, .inr rfl⟩ .nil))
  exact ⟨written, decoding.1 boundaryEdit boundaryParams written⟩

end Edit

end LanguageServer
