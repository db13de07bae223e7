import LanguageServer.Proofs.Item
/-!
# What resolving adds to an item

Whatever a client sends, resolving it leaves all but the detail and the documentation alone
(`without_resolveItem`), and once is enough (`resolveItem_resolveItem`). An item that is labelled
with a keyword, and does not say that it stands for one of another category, gets what the catalog
holds about the keyword (`get?_resolveItem_of_entry`).
-/

namespace LanguageServer

namespace Json

/-- A value without the members of some names, if it has members at all. -/
def without (names : List String) : Json → Json
  | obj members => obj (members.filter fun member => member.1 ∉ names)
  | value => value

theorem without_set {target : Json} {members : List (String × Json)} (object : target = obj members)
    {names : List String} {name : String} (named : name ∈ names) (value : Json) :
    (target.set name value).without names = target.without names := by
  subst object
  exact congrArg obj (Table.filter_insert (fun _ => by simp [named]) value members)

/-- A member of another name stays. -/
theorem get?_without {names : List String} {name : String} (other : name ∉ names) (value : Json) :
    (value.without names).get? name = value.get? name := by
  cases value with
  | obj members => exact Table.lookup_filter (fun _ => by simp [other]) members
  | null | bool | int | float | str | arr => rfl

theorem exists_members_of_get? {value member : Json} {name : String}
    (found : value.get? name = some member) : ∃ members, value = obj members := by
  cases value with
  | obj members => exact ⟨members, rfl⟩
  | null | bool | int | float | str | arr => cases found

end Json

namespace Candidate

variable {item : Json}

/-- Only the detail and the documentation of an item are written over. -/
theorem without_updateItem {members : List (String × Json)} (object : item = .obj members)
    (candidate : Candidate) :
    (updateItem item candidate).without ["detail", "documentation"] =
      item.without ["detail", "documentation"] := by
  have detailed (value : Json) : (item.set "detail" value).without ["detail", "documentation"] =
      item.without ["detail", "documentation"] := Json.without_set object (by simp) value
  unfold updateItem
  cases candidate.documentation with
  | none => exact detailed _
  | some text =>
    subst object
    exact (Json.without_set rfl (by simp) _).trans (detailed _)

theorem without_resolveItem (item : Json) :
    (resolveItem item).without ["detail", "documentation"] =
      item.without ["detail", "documentation"] := by
  cases read : ofJson item with
  | error error =>
    unfold resolveItem
    rw [read]
  | ok candidate =>
    have read := ofJson_eq_ok_iff.mp read
    obtain ⟨members, object⟩ := Json.exists_members_of_get? read.label
    rw [resolveItem_of_readFrom read]
    exact without_updateItem object _

/-- Resolving a candidate settles it. -/
theorem resolve_resolve (candidate : Candidate) : candidate.resolve.resolve = candidate.resolve := by
  by_cases known : Category.ofKeyword? candidate.label = some candidate.category
  · simp [resolve, known]
  · simp [resolve, known]

/-- An item that has been resolved is one that resolving leaves as it is. -/
theorem resolveItem_resolveItem (item : Json) :
    resolveItem (resolveItem item) = resolveItem item := by
  cases read : ofJson item with
  | error error =>
    have same : resolveItem item = item := by
      unfold resolveItem
      rw [read]
    rw [same, same]
  | ok candidate =>
    have read := ofJson_eq_ok_iff.mp read
    rw [resolveItem_of_readFrom read, resolveItem_of_readFrom (readFrom_updateItem_resolve read),
      resolve_resolve]
    exact updateItem_updateItem item id

/-- An item carries a category along if it holds the name of the category. -/
theorem carriedCategory?_eq_some_iff {category : Category} :
    carriedCategory? item = some category ↔
      item.at? ["data", "category"] = some (.str category.name) := by
  rw [carriedCategory?, Option.bind_eq_some_iff]
  constructor
  · rintro ⟨name, carried, found⟩
    rw [← Category.ofName?_eq_some_iff.mp found]
    exact Json.bind_str?_eq_some.mp carried
  · intro carried
    exact ⟨category.name, Json.bind_str?_eq_some.mpr carried, Category.ofName?_eq_some_iff.mpr rfl⟩

/-- An item for a keyword gets what the catalog holds about the keyword. -/
theorem get?_resolveItem_of_entry {category : Category} {entry : Keyword}
    (listed : entry ∈ category.entries) (named : item.get? "label" = some (.str entry.name))
    (only : ∀ other : Category, item.at? ["data", "category"] = some (.str other.name) →
      other = category) :
    (resolveItem item).get? "detail" = some (.str (category.detail ++ " keyword")) ∧
      (resolveItem item).get? "documentation" = some (.markdown entry.documentation) := by
  have known : Category.ofKeyword? entry.name = some category :=
    Category.ofKeyword?_eq_some_iff.mpr (List.mem_map_of_mem listed)
  have documented := Keyword.documentation?_eq_some_iff.mpr ⟨category, listed⟩
  have placed : (carriedCategory? item).or (Category.ofKeyword? entry.name) = some category := by
    cases carried : carriedCategory? item with
    | none => exact known
    | some other => rw [only other (carriedCategory?_eq_some_iff.mp carried), Option.some_or]
  have read := ofJson_of_label named
  rw [placed] at read
  rw [resolveItem_of_readFrom (ofJson_eq_ok_iff.mp read)]
  simp [get?_updateItem, resolve, known, documented]

end Candidate

/-! ## Requests to resolve -/

namespace Session

/-- A running session answers every request to resolve an item, and stays as it is. The result
differs from the item in the detail and the documentation at most, and to resolve the result, in
this or in another running session, gives it back. If the label of the item is a keyword, and the
item does not carry along the name of a category other than that of the keyword, the result has the
detail and the documentation of the keyword, whatever the item had. -/
theorem handle_resolve {session : Session} {message id : Json}
    (running : session.phase = .running) (asked : message.Requests id "completionItem/resolve") :
    let item := message.parameters
    ∃ reply result, session.handle message = (session, [reply]) ∧ reply.toJson.Answers id ∧
      reply.toJson.get? "result" = some result ∧
      result.without ["detail", "documentation"] = item.without ["detail", "documentation"] ∧
      (∀ (later : Session) next nextId, later.phase = .running →
        next.Requests nextId "completionItem/resolve" → next.parameters = result →
        ∃ again, later.handle next = (later, [again]) ∧ again.toJson.Answers nextId ∧
          again.toJson.get? "result" = some result) ∧
      ∀ category : Category, ∀ entry ∈ category.entries,
        item.get? "label" = some (.str entry.name) →
        (∀ other : Category, item.at? ["data", "category"] = some (.str other.name) →
          other = category) →
        result.get? "detail" = some (.str (category.detail ++ " keyword")) ∧
          result.get? "documentation" = some (.markdown entry.documentation) := by
  intro item
  refine ⟨.result id (Candidate.resolveItem item), Candidate.resolveItem item, ?_,
    Outgoing.answers_result _ _, Outgoing.get?_result _ _, Candidate.without_resolveItem item,
    ?_, fun category entry => Candidate.get?_resolveItem_of_entry⟩
  · exact session.handle_of_running running asked (by decide)
  · intro later next nextId running' asked' same
    refine ⟨.result nextId (Candidate.resolveItem item), ?_, Outgoing.answers_result _ _,
      Outgoing.get?_result _ _⟩
    rw [later.handle_of_running running' asked' (by decide)]
    simp only [answer, same, Candidate.resolveItem_resolveItem]

theorem requests_resolving (item : Json) :
    (resolving item).Requests (.int 2) "completionItem/resolve" := by
  simp [resolving, Json.Requests, Json.object, Json.get?, Table.ofList, Table.lookup_insert]

theorem parameters_resolving (item : Json) : (resolving item).parameters = item := by
  simp [resolving, Json.parameters, Json.object, Json.get?, Table.ofList, Table.lookup_insert]

/-- An item for a keyword that has been through careless hands. -/
def untidyItem : Json :=
  .object [("label", .str "page"), ("detail", .int 7), ("documentation", .arr [.null]),
    ("data", .object [("category", .str "pages")])]

theorem handle_resolve_untidyItem :
    begun.phase = .running ∧
    (resolving untidyItem).Requests (.int 2) "completionItem/resolve" ∧
    ∃ reply result, begun.handle (resolving untidyItem) = (begun, [reply]) ∧
      reply.toJson.get? "result" = some result ∧
      result.get? "label" = some (.str "page") ∧
      result.get? "detail" = some (.str "declaration keyword") ∧
      result.get? "documentation" =
        some (.markdown "Declares a page reachable by the application's router.") ∧
      (resolving result).Requests (.int 2) "completionItem/resolve" ∧
      ∃ again, begun.handle (resolving result) = (begun, [again]) ∧
        again.toJson.get? "result" = some result := by
  have running : begun.phase = .running := rfl
  have asked := requests_resolving untidyItem
  have listed : (⟨"page", "Declares a page reachable by the application's router."⟩ : Keyword) ∈
      Category.declarations.entries := by decide
  have only (other : Category)
      (carried : (resolving untidyItem).parameters.at? ["data", "category"] =
        some (.str other.name)) : other = .declarations := by
    have name : "pages" = other.name := Json.str.inj (Option.some.inj carried)
    revert name
    cases other <;> decide
  obtain ⟨reply, result, handled, -, sent, others, again, enriched⟩ :=
    handle_resolve running asked
  obtain ⟨detail, documentation⟩ := enriched .declarations _ listed rfl only
  have asked' := requests_resolving result
  obtain ⟨reply', handled', -, sent'⟩ :=
    again begun (resolving result) (.int 2) running asked' (parameters_resolving result)
  have label : result.get? "label" = some (.str "page") := by
    have other : "label" ∉ ["detail", "documentation"] := by decide
    rw [← Json.get?_without other result, others]
    rfl
  exact ⟨running, asked, reply, result, handled, sent, label, detail, documentation, asked',
    reply', handled', sent'⟩

end Session

end LanguageServer
