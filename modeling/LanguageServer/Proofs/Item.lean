import LanguageServer.Proofs.Catalog
import LanguageServer.Proofs.Resolve
/-!
# Candidates as items

`ReadFrom` says by the members of an item which candidate is read from it (`ofJson_eq_ok_iff`). An
item is a frame, which a candidate never changes, with the detail and the documentation written over
it (`toJson_eq_updateItem`), and writing these over an item changes nothing else that is read
(`ReadFrom.updateItem`). So the item for a candidate gives it back, and resolving the item is
resolving the candidate (`item_roundtrip`).
-/

namespace LanguageServer

namespace Json

/-- Only the last value set for a member counts. -/
theorem set_set (target v w : Json) (name : String) :
    (target.set name v).set name w = target.set name w := by
  cases target with
  | obj members => exact congrArg obj (Table.insert_insert name v w members)
  | null | bool | int | float | str | arr => exact congrArg obj (Table.insert_insert name v w [])

theorem set_comm (target v w : Json) {a b : String} (different : a ≠ b) :
    (target.set b w).set a v = (target.set a v).set b w := by
  cases target with
  | obj members => exact congrArg obj (Table.insert_comm different v w members)
  | null | bool | int | float | str | arr =>
    exact congrArg obj (Table.insert_comm different v w [])

theorem get?_markdown (text : String) : (markdown text).get? "value" = some (.str text) := by
  simp [markdown, object, get?, Table.ofList, Table.lookup_insert]

end Json

namespace Candidate

variable {item : Json} {candidate : Candidate}

/-! ## Reading -/

/-- What the members of an item say about the candidate that is read from it. -/
structure ReadFrom (item : Json) (candidate : Candidate) : Prop where
  label : item.get? "label" = some (.str candidate.label)
  category : (carriedCategory? item).or (Category.ofKeyword? candidate.label) =
    some candidate.category
  detail : ((item.get? "detail").bind Json.str?).getD candidate.category.detail = candidate.detail
  documentation : documentation? item = candidate.documentation
  insertText : ((item.get? "insertText").bind Json.str?).getD candidate.label =
    candidate.insertText
  format : (item.get? "insertTextFormat").bind Json.int? = some snippetFormat ↔
    candidate.isSnippet = true

/-- A candidate is read from an item if the members of the item say so. -/
theorem ofJson_eq_ok_iff : ofJson item = .ok candidate ↔ ReadFrom item candidate := by
  constructor
  · intro read
    have opened := read
    unfold ofJson at opened
    obtain ⟨label, found, -⟩ := bind_eq_ok.mp opened
    have named := Json.stringField_eq_ok.mp found
    rw [ofJson_of_label named] at read
    cases found : (carriedCategory? item).or (Category.ofKeyword? label) with
    | none =>
      rw [found] at read
      cases read
    | some category =>
      rw [found] at read
      cases read
      exact ⟨named, found, rfl, rfl, rfl, by simp⟩
  · rintro ⟨label, category, detail, documentation, insertText, format⟩
    rw [ofJson_of_label label, category]
    dsimp only
    rw [detail, documentation, insertText]
    simp [format]

/-! ## Writing -/

/-- What the item for a candidate holds besides its detail and its documentation. -/
def frame (candidate : Candidate) (index : Nat) : Json :=
  .object [
    ("label", .str candidate.label),
    ("kind", .nat candidate.category.itemKind),
    ("insertText", .str candidate.insertText),
    ("insertTextFormat", .int (if candidate.isSnippet then snippetFormat else plainFormat)),
    ("sortText", .str (sortText index)),
    ("data", .object [("category", .str candidate.category.name)])]

/-- The item for a candidate is its frame with the detail and the documentation written over it. -/
theorem toJson_eq_updateItem (candidate : Candidate) (index : Nat) :
    candidate.toJson index = updateItem (candidate.frame index) candidate := by
  -- The detail may as well be written last, since no member after it has its name.
  have moved := Table.ofList_append_cons
    [("label", Json.str candidate.label), ("kind", .nat candidate.category.itemKind)]
    ("detail", .str candidate.detail)
    [("insertText", .str candidate.insertText),
      ("insertTextFormat", .int (if candidate.isSnippet then snippetFormat else plainFormat)),
      ("sortText", .str (sortText index)),
      ("data", .object [("category", .str candidate.category.name)])] (by simp)
  have detailed : Json.object [
      ("label", .str candidate.label),
      ("kind", .nat candidate.category.itemKind),
      ("detail", .str candidate.detail),
      ("insertText", .str candidate.insertText),
      ("insertTextFormat", .int (if candidate.isSnippet then snippetFormat else plainFormat)),
      ("sortText", .str (sortText index)),
      ("data", .object [("category", .str candidate.category.name)])] =
        (candidate.frame index).set "detail" (.str candidate.detail) :=
    congrArg Json.obj moved
  unfold toJson updateItem
  rw [detailed]

/-- Of two updates of an item the second one counts, if it writes a documentation where the first
one has. -/
theorem updateItem_updateItem (item : Json) {first second : Candidate}
    (kept : second.documentation = none → first.documentation = none) :
    updateItem (updateItem item first) second = updateItem item second := by
  have different : "detail" ≠ "documentation" := by decide
  unfold updateItem
  dsimp only
  cases written : first.documentation with
  | none =>
    dsimp only
    rw [Json.set_set]
  | some before =>
    cases rewritten : second.documentation with
    | none => cases written.symm.trans (kept rewritten)
    | some text =>
      dsimp only
      rw [Json.set_comm _ _ _ different, Json.set_set, Json.set_set]

/-- What is written over an item is read from it then, and all else as before. -/
theorem ReadFrom.updateItem (read : ReadFrom item candidate) (detail : String)
    {documentation : Option String}
    (kept : documentation = none → candidate.documentation = none) :
    let changed := { candidate with detail := detail, documentation := documentation }
    ReadFrom (updateItem item changed) changed := by
  intro changed
  have member (name : String) (detailed : name ≠ "detail") (documented : name ≠ "documentation") :
      (Candidate.updateItem item changed).get? name = item.get? name := by
    rw [get?_updateItem, if_neg documented, if_neg detailed]
  have carried : carriedCategory? (Candidate.updateItem item changed) = carriedCategory? item := by
    unfold carriedCategory?
    rw [Json.at?, Json.at?, member "data" (by decide) (by decide)]
  refine ⟨?_, ?_, ?_, ?_, ?_, ?_⟩
  · rw [member "label" (by decide) (by decide)]
    exact read.label
  · rw [carried]
    exact read.category
  · rw [get?_updateItem]
    rfl
  · unfold documentation?
    rw [get?_updateItem, if_pos rfl]
    cases documentation with
    | some text => exact Json.bind_str?_eq_some.mpr (Json.get?_markdown text)
    | none => exact read.documentation.trans (kept rfl)
  · rw [member "insertText" (by decide) (by decide)]
    exact read.insertText
  · rw [member "insertTextFormat" (by decide) (by decide)]
    exact read.format

/-! ## Resolving -/

/-- Resolving changes no more than the detail and the documentation, and takes no documentation
away. -/
theorem exists_resolve_eq (candidate : Candidate) :
    ∃ detail documentation,
      candidate.resolve = { candidate with detail := detail, documentation := documentation } ∧
        (documentation = none → candidate.documentation = none) := by
  unfold resolve
  split
  · rename_i found
    obtain ⟨entry, listed, name⟩ := List.mem_map.mp (Category.ofKeyword?_eq_some_iff.mp found)
    have documented := Keyword.documentation?_eq_some_iff.mpr ⟨candidate.category, listed⟩
    rw [name] at documented
    refine ⟨_, _, rfl, fun missing => ?_⟩
    cases documented.symm.trans missing
  · exact ⟨_, _, rfl, id⟩

theorem readFrom_updateItem_resolve (read : ReadFrom item candidate) :
    ReadFrom (updateItem item candidate.resolve) candidate.resolve := by
  obtain ⟨detail, documentation, resolved, kept⟩ := candidate.exists_resolve_eq
  rw [resolved]
  exact read.updateItem detail kept

theorem resolveItem_of_readFrom (read : ReadFrom item candidate) :
    resolveItem item = updateItem item candidate.resolve := by
  unfold resolveItem
  rw [ofJson_eq_ok_iff.mpr read]

/-! ## The item for a candidate -/

/-- From the frame of a candidate, one is read that has the detail of its category and no
documentation. -/
theorem readFrom_frame (candidate : Candidate) (index : Nat) :
    ReadFrom (candidate.frame index)
      { candidate with detail := candidate.category.detail, documentation := none } := by
  have format : (candidate.frame index).get? "insertTextFormat" =
      some (.int (if candidate.isSnippet then snippetFormat else plainFormat)) := by
    simp [frame, Json.object, Json.get?, Table.ofList, Table.lookup_insert]
  have data : (candidate.frame index).at? ["data", "category"] =
      some (.str candidate.category.name) := by
    simp [frame, Json.object, Json.at?, Json.get?, Table.ofList, Table.lookup_insert]
  have carried : carriedCategory? (candidate.frame index) = some candidate.category := by
    rw [carriedCategory?, data]
    exact Category.ofName?_eq_some_iff.mpr rfl
  refine ⟨?_, ?_, ?_, ?_, ?_, ?_⟩
  · simp [frame, Json.object, Json.get?, Table.ofList, Table.lookup_insert]
  · rw [carried, Option.some_or]
  · simp [frame, Json.object, Json.get?, Table.ofList, Table.lookup_insert]
  · simp [documentation?, frame, Json.object, Json.get?, Table.ofList, Table.lookup_insert]
  · simp [frame, Json.object, Json.get?, Table.ofList, Table.lookup_insert, Json.str?]
  · rw [format]
    cases candidate.isSnippet <;> decide

theorem readFrom_toJson (candidate : Candidate) (index : Nat) :
    ReadFrom (candidate.toJson index) candidate := by
  rw [toJson_eq_updateItem]
  exact (candidate.readFrom_frame index).updateItem candidate.detail fun _ => rfl

/-- The item for a candidate loses nothing: the candidate is read back from it. What resolving the
candidate changes can be written over the item, which then is the item for the resolved candidate,
and a client that asks about the item gets just that. -/
theorem item_roundtrip (candidate : Candidate) (index : Nat) :
    ofJson (candidate.toJson index) = .ok candidate ∧
    updateItem (candidate.toJson index) candidate.resolve = candidate.resolve.toJson index ∧
    resolveItem (candidate.toJson index) = candidate.resolve.toJson index := by
  have read := candidate.readFrom_toJson index
  obtain ⟨detail, documentation, resolved, kept⟩ := candidate.exists_resolve_eq
  have same : candidate.resolve.frame index = candidate.frame index := by
    rw [resolved]
    rfl
  have updated : updateItem (candidate.toJson index) candidate.resolve =
      candidate.resolve.toJson index := by
    rw [toJson_eq_updateItem, toJson_eq_updateItem, same]
    refine updateItem_updateItem _ ?_
    rw [resolved]
    exact kept
  exact ⟨ofJson_eq_ok_iff.mpr read, updated, (resolveItem_of_readFrom read).trans updated⟩

end Candidate

end LanguageServer
