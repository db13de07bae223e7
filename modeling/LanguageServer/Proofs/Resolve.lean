import LanguageServer.Proofs.Conversation
import LanguageServer.Proofs.Field
/-!
# Resolving items that the catalog does not know

A client may ask about an item whose label is no keyword (`Json.Foreign`). Such an item goes back as
it came if it carries no category along. If it does, it is read as a candidate and written back, so
it gains the detail of the category where it has none of its own, and its documentation takes the
form in which the server writes documentation (`get?_resolveItem_of_carries`). It stays the same
only if it has both already (`resolveItem_eq_self_iff`).
-/

namespace LanguageServer

namespace Json

/-- Setting a member to the value that it has changes nothing, if the members are in order. -/
theorem set_of_get? {target value : Json} {name : String}
    (ordered : ∀ members, target = .obj members → Table.Ascending members)
    (found : target.get? name = some value) : target.set name value = target := by
  cases target with
  | obj members => exact congrArg obj (Table.Ascending.insert_of_lookup (ordered members rfl) found)
  | null | bool | int | float | str | arr => cases found

/-- An item that the catalog does not know: it has no label, or one that is no keyword. -/
def Foreign (item : Json) : Prop :=
  ∀ label, item.get? "label" = some (.str label) → Category.ofKeyword? label = none

/-- An item that has a label and carries a category along, so that a candidate is read from it. -/
def Carries (item : Json) (category : Category) : Prop :=
  (∃ label, item.get? "label" = some (.str label)) ∧
    Candidate.carriedCategory? item = some category

/-- An item whose detail and documentation are written as the server writes them. -/
def Settled (item : Json) : Prop :=
  (∃ detail, item.get? "detail" = some (.str detail)) ∧
    ∀ text, Candidate.documentation? item = some text →
      item.get? "documentation" = some (.markdown text)

end Json

namespace Candidate

variable {item : Json} {category : Category}

/-! ## What is read from an item -/

theorem ofJson_of_label {label : String} (named : item.get? "label" = some (.str label)) :
    ofJson item =
      match (carriedCategory? item).or (Category.ofKeyword? label) with
      | none => .error (.notKeyword label)
      | some category =>
        .ok {
          label := label
          category := category
          detail := ((item.get? "detail").bind Json.str?).getD category.detail
          documentation := documentation? item
          insertText := ((item.get? "insertText").bind Json.str?).getD label
          isSnippet := (item.get? "insertTextFormat").bind Json.int? = some snippetFormat } := by
  unfold ofJson
  rw [Json.stringField_eq_ok.mpr named]
  rfl

theorem ofJson_ne_ok (unnamed : ∀ label, item.get? "label" ≠ some (.str label))
    (candidate : Candidate) : ofJson item ≠ .ok candidate := by
  intro read
  unfold ofJson at read
  obtain ⟨label, named, -⟩ := bind_eq_ok.mp read
  exact unnamed label (Json.stringField_eq_ok.mp named)

/-! ## What is written to an item -/

theorem get?_updateItem (item : Json) (candidate : Candidate) (name : String) :
    (updateItem item candidate).get? name =
      if name = "documentation" then
        (candidate.documentation.map Json.markdown).or (item.get? "documentation")
      else if name = "detail" then some (.str candidate.detail)
      else item.get? name := by
  unfold updateItem
  dsimp only
  cases candidate.documentation with
  | none =>
    rw [Json.get?_set]
    by_cases documented : name = "documentation"
    · subst documented
      rfl
    · rw [if_neg documented]
  | some text => rw [Json.get?_set, Json.get?_set]; rfl

theorem resolve_of_foreign {candidate : Candidate}
    (foreign : Category.ofKeyword? candidate.label = none) : candidate.resolve = candidate := by
  unfold resolve
  rw [foreign, if_neg (by simp)]

/-! ## Items that the catalog does not know -/

/-- Without a category that it carries along, such an item is no candidate. -/
theorem resolveItem_of_not_carries (foreign : item.Foreign)
    (uncarried : ∀ category, ¬item.Carries category) : resolveItem item = item := by
  unfold resolveItem
  by_cases named : ∃ label, item.get? "label" = some (.str label)
  · have carried : carriedCategory? item = none :=
      Option.eq_none_iff_forall_ne_some.mpr fun category found =>
        uncarried category ⟨named, found⟩
    obtain ⟨label, named⟩ := named
    rw [ofJson_of_label named, carried, foreign label named]
    rfl
  · cases read : ofJson item with
    | error => rfl
    | ok candidate => exact absurd read (ofJson_ne_ok (not_exists.mp named) candidate)

/-- With a category, it is one that resolving does not change. Its detail and documentation are
written back as they were read. -/
theorem exists_update_of_carries (foreign : item.Foreign) (carries : item.Carries category) :
    ∃ candidate : Candidate, resolveItem item = updateItem item candidate ∧
      candidate.detail = ((item.get? "detail").bind Json.str?).getD category.detail ∧
      candidate.documentation = documentation? item := by
  obtain ⟨⟨label, named⟩, carried⟩ := carries
  have read := ofJson_of_label named
  rw [carried, Option.some_or] at read
  unfold resolveItem
  rw [read]
  exact ⟨_, congrArg (updateItem item) (resolve_of_foreign (foreign label named)), rfl, rfl⟩

theorem get?_resolveItem_of_carries (foreign : item.Foreign) (carries : item.Carries category)
    (name : String) :
    (resolveItem item).get? name =
      if name = "documentation" then
        ((documentation? item).map Json.markdown).or (item.get? "documentation")
      else if name = "detail" then
        some (.str (((item.get? "detail").bind Json.str?).getD category.detail))
      else item.get? name := by
  obtain ⟨candidate, updated, detail, documentation⟩ := exists_update_of_carries foreign carries
  rw [updated, get?_updateItem, detail, documentation]

/-- Such an item goes back as it came only if it was written as the server writes items. -/
theorem resolveItem_eq_self_iff (foreign : item.Foreign) (carries : item.Carries category)
    (ordered : ∀ members, item = .obj members → Table.Ascending members) :
    resolveItem item = item ↔ item.Settled := by
  constructor
  · intro same
    have members := get?_resolveItem_of_carries foreign carries
    rw [same] at members
    refine ⟨⟨_, (members "detail").trans rfl⟩, fun text found => ?_⟩
    rw [members "documentation", found]
    rfl
  · rintro ⟨⟨detail, detailed⟩, documented⟩
    obtain ⟨candidate, updated, own, documentation⟩ := exists_update_of_carries foreign carries
    rw [detailed] at own
    have same : item.set "detail" (.str candidate.detail) = item :=
      Json.set_of_get? ordered (own ▸ detailed)
    rw [updated]
    unfold updateItem
    rw [same, documentation]
    cases found : documentation? item with
    | none => rfl
    | some text => exact Json.set_of_get? ordered (documented text found)

end Candidate

/-! ## Requests to resolve -/

namespace Session

/-- A running session answers a request to resolve an item that the catalog does not know, and stays
as it is. An item without a label goes back as it came, and so does one that carries no category
along. Any other item keeps all its members but the detail and the documentation. It has a detail
then, which is that of the category if there was none before; and if there is a text in its
documentation, that is Markdown then. So if its members are in order, as those of a table are, it
goes back as it came if it had both in this form before, and then only. -/
theorem handle_resolve_of_foreign {session : Session} {message id : Json}
    (running : session.phase = .running) (asked : message.Requests id "completionItem/resolve")
    (foreign : message.parameters.Foreign) :
    let item := message.parameters
    ∃ reply result, session.handle message = (session, [reply]) ∧ reply.toJson.Answers id ∧
      reply.toJson.get? "result" = some result ∧
      ((∀ category, ¬item.Carries category) → result = item) ∧
      ∀ category, item.Carries category →
        (∀ name, result.get? name =
          if name = "documentation" then
            ((Candidate.documentation? item).map Json.markdown).or (item.get? "documentation")
          else if name = "detail" then
            some (.str (((item.get? "detail").bind Json.str?).getD category.detail))
          else item.get? name) ∧
        ((∀ members, item = .obj members → Table.Ascending members) →
          (result = item ↔ item.Settled)) := by
  intro item
  refine ⟨.result id (Candidate.resolveItem item), Candidate.resolveItem item, ?_,
    Outgoing.answers_result _ _, Outgoing.get?_result _ _,
    Candidate.resolveItem_of_not_carries foreign, fun category carries => ⟨?_, ?_⟩⟩
  · exact session.handle_of_running running asked (by decide)
  · exact Candidate.get?_resolveItem_of_carries foreign carries
  · exact Candidate.resolveItem_eq_self_iff foreign carries

/-- An item for no keyword that says that it stands for a type. -/
def typedItem : Json :=
  .object [("label", .str "foo"), ("data", .object [("category", .str "types")])]

theorem foreign_typedItem : typedItem.Foreign := by
  intro label named
  obtain rfl : "foo" = label := by
    cases named
    rfl
  decide

def resolving (item : Json) : Json :=
  .object [("id", .int 2), ("method", .str "completionItem/resolve"), ("params", item)]

/-- The session after a first request to begin. -/
def begun : Session := new.after [.object [("id", .int 1), ("method", .str "initialize")]]

theorem handle_resolve_of_foreign_typedItem :
    begun.phase = .running ∧ (resolving typedItem).Requests (.int 2) "completionItem/resolve" ∧
    (resolving typedItem).parameters.Foreign ∧ typedItem.Carries .types ∧
    ∃ reply result, begun.handle (resolving typedItem) = (begun, [reply]) ∧
      reply.toJson.get? "result" = some result ∧
      result.get? "detail" = some (.str "type") ∧ result.get? "label" = some (.str "foo") := by
  have carries : typedItem.Carries .types := ⟨⟨"foo", rfl⟩, by decide⟩
  have running : begun.phase = .running := rfl
  have asked : (resolving typedItem).Requests (.int 2) "completionItem/resolve" := ⟨rfl, rfl⟩
  have foreign : (resolving typedItem).parameters.Foreign := foreign_typedItem
  obtain ⟨reply, result, handled, -, sent, -, members⟩ :=
    handle_resolve_of_foreign running asked foreign
  have own := (members .types carries).1
  exact ⟨running, asked, foreign, carries, reply, result, handled, sent, own "detail",
    own "label"⟩

/-- An item that the catalog does not know may go back changed. -/
theorem typedItem_gains_detail :
    Category.ofKeyword? "foo" = none ∧ typedItem.get? "label" = some (.str "foo") ∧
    begun.phase = .running ∧
    (begun.handle (resolving typedItem)).2 =
      [.result (.int 2) (typedItem.set "detail" (.str "type"))] ∧
    typedItem.set "detail" (.str "type") ≠ typedItem := by
  refine ⟨by decide, rfl, rfl, rfl, fun same => ?_⟩
  have member := congrArg (Json.get? "detail") same
  cases (rfl : (typedItem.set "detail" (.str "type")).get? "detail" = _).symm.trans member

end Session

end LanguageServer
