import LanguageServer.Proofs.Conversation
import LanguageServer.Proofs.Decimal
import LanguageServer.Proofs.Denotation
import Mathlib.Data.List.Flatten
/-!
# Completion

A place has some of all contexts, in their order, and no keyword is on offer in two of them. So an
answer never has a label twice, whatever precedes the place, and it is short enough for its items to
sort in their order (`offer_of_sublist`). The positions that completion takes are those that an edit
takes (`exists_completionItems`).
-/

namespace LanguageServer

namespace Context

/-- All contexts in their order. -/
def all : List Context := [lineStart, afterColon, typePosition, always]

/-- The keywords on offer in some contexts, each with its category: context after context, category
after category, and keyword after keyword. -/
def offered (contexts : List Context) : List (Category × String) :=
  contexts.flatMap fun context =>
    context.categories.flatMap fun category =>
      category.keywords.map fun keyword => (category, keyword)

theorem sublist_classify (before : List Char) : (classify before).Sublist all := by
  have optional (present : Bool) (context : Context) :
      (if present then [context] else []).Sublist [context] := by
    cases present with
    | false => exact List.nil_sublist _
    | true => exact List.Sublist.refl _
  exact (((optional _ _).append (optional _ _)).append (optional _ _)).append (List.Sublist.refl _)

theorem always_mem_classify (before : List Char) : always ∈ classify before :=
  List.mem_append_right _ List.mem_cons_self

theorem mem_offered {contexts : List Context} {category : Category} {keyword : String} :
    (category, keyword) ∈ offered contexts ↔
      (∃ context ∈ contexts, category ∈ context.categories) ∧ keyword ∈ category.keywords := by
  simp only [offered, List.mem_flatMap, List.mem_map, Prod.mk.injEq]
  constructor
  · rintro ⟨context, member, _, listed, _, known, rfl, rfl⟩
    exact ⟨⟨context, member, listed⟩, known⟩
  · rintro ⟨⟨context, member, listed⟩, known⟩
    exact ⟨context, member, category, listed, keyword, known, rfl, rfl⟩

theorem sublist_offered {contexts : List Context} (ordered : contexts.Sublist all) :
    (offered contexts).Sublist (offered all) :=
  ordered.flatMap _

/-- No keyword is on offer twice. -/
theorem nodup_offered {contexts : List Context} (ordered : contexts.Sublist all) :
    ((offered contexts).map Prod.snd).Nodup := by
  have whole : ((offered all).map Prod.snd).Nodup := by decide +kernel
  exact whole.sublist ((sublist_offered ordered).map _)

theorem length_offered_le {contexts : List Context} (ordered : contexts.Sublist all) :
    (offered contexts).length ≤ 45 :=
  (sublist_offered ordered).length_le

theorem control_notMem_offered {contexts : List Context} (ordered : contexts.Sublist all) :
    ∀ keyword ∈ Category.control.keywords, keyword ∉ (offered contexts).map Prod.snd := by
  have whole : ∀ keyword ∈ Category.control.keywords, keyword ∉ (offered all).map Prod.snd := by
    decide +kernel
  exact fun keyword known member =>
    whole keyword known (((sublist_offered ordered).map _).subset member)

theorem modifiers_mem_offered {contexts : List Context} (member : always ∈ contexts) :
    ∀ keyword ∈ Category.modifiers.keywords, keyword ∈ (offered contexts).map Prod.snd := by
  intro keyword known
  have listed : (Category.modifiers, keyword) ∈ offered contexts :=
    mem_offered.mpr ⟨⟨always, member, List.mem_cons_self⟩, known⟩
  exact List.mem_map_of_mem listed

end Context

namespace Candidate

theorem ofContexts_eq (snippets : Bool) (contexts : List Context) :
    ofContexts snippets contexts =
      (Context.offered contexts).map fun entry => ofKeyword snippets entry.1 entry.2 := by
  simp only [ofContexts, Context.offered, List.map_flatMap, List.map_map, Function.comp_def]

/-- What an item shows of its candidate and its place. -/
theorem get?_toJson (candidate : Candidate) (index : Nat) :
    (candidate.toJson index).get? "label" = some (.str candidate.label) ∧
    (candidate.toJson index).get? "sortText" = some (.str (sortText index)) ∧
    (candidate.toJson index).get? "insertTextFormat" =
      some (.int (if candidate.isSnippet then snippetFormat else plainFormat)) := by
  unfold toJson
  cases candidate.documentation with
  | none => simp [Json.object, Json.get?, Table.ofList, Table.lookup_insert]
  | some text =>
    simp only [Json.get?_set]
    simp [Json.object, Json.get?, Table.ofList, Table.lookup_insert]

end Candidate

/-! ## Offers -/

/-- Items that offer the keywords of some contexts. -/
structure Offer (snippets : Bool) (contexts : List Context) (items : List Json) : Prop where
  /-- One item for each keyword of each category of each context, in order. -/
  items_eq : items = (Context.offered contexts).mapIdx fun index entry =>
    (Candidate.ofKeyword snippets entry.1 entry.2).toJson index
  labels : items.map (Json.get? "label") =
    (Context.offered contexts).map fun entry => some (.str entry.2)
  nodup : ((Context.offered contexts).map Prod.snd).Nodup
  modifiers : ∀ keyword ∈ Category.modifiers.keywords,
    keyword ∈ (Context.offered contexts).map Prod.snd
  control : ∀ keyword ∈ Category.control.keywords,
    keyword ∉ (Context.offered contexts).map Prod.snd
  /-- The items sort in the order in which they stand. -/
  sorted : ∃ texts : List String,
    items.map (Json.get? "sortText") = texts.map (fun text => some (.str text)) ∧
      texts.Pairwise (· < ·)
  /-- The texts of declarations are snippets, if these are on, and all others are plain. -/
  formats : items.map (Json.get? "insertTextFormat") =
    (Context.offered contexts).map fun entry =>
      some (.int (if snippets = true ∧ entry.1 = .declarations then 2 else 1))

namespace Offer

variable {snippets : Bool} {contexts : List Context} {items : List Json}

theorem ne_nil (offer : Offer snippets contexts items) : items ≠ [] := by
  rintro rfl
  have unlabelled : [] = (Context.offered contexts).map fun entry => some (Json.str entry.2) :=
    offer.labels
  have listed := offer.modifiers "required" (by decide)
  rw [List.map_eq_nil_iff.mp unlabelled.symm] at listed
  cases listed

end Offer

theorem map_mapIdx_eq_map {α β γ : Type} {f : Nat → α → β} {g : β → γ} {h : α → γ}
    (same : ∀ index item, g (f index item) = h item) (list : List α) :
    (list.mapIdx f).map g = list.map h := by
  refine List.ext_getElem? fun index => ?_
  simp [List.getElem?_mapIdx, Function.comp_def, same]

theorem map_mapIdx_eq_map_range {α β γ : Type} {f : Nat → α → β} {g : β → γ} {h : Nat → γ}
    (same : ∀ index item, g (f index item) = h index) (list : List α) :
    (list.mapIdx f).map g = (List.range list.length).map h := by
  refine List.ext_getElem (by simp) fun index _ _ => ?_
  simp [same]

/-- The items for the keywords of some of the contexts are an offer, wherever modifiers fit. -/
theorem offer_of_sublist (snippets : Bool) {contexts : List Context}
    (ordered : contexts.Sublist Context.all) (always : .always ∈ contexts) :
    Offer snippets contexts
      ((Candidate.ofContexts snippets contexts).mapIdx fun index candidate =>
        candidate.toJson index) where
  items_eq := by
    rw [Candidate.ofContexts_eq]
    refine List.ext_getElem? fun index => ?_
    simp [List.getElem?_mapIdx, Function.comp_def]
  labels := by
    rw [map_mapIdx_eq_map fun index candidate => (candidate.get?_toJson index).1,
      Candidate.ofContexts_eq, List.map_map]
    rfl
  nodup := Context.nodup_offered ordered
  modifiers := Context.modifiers_mem_offered always
  control := Context.control_notMem_offered ordered
  sorted := by
    have short : (Candidate.ofContexts snippets contexts).length ≤ 45 := by
      rw [Candidate.ofContexts_eq, List.length_map]
      exact Context.length_offered_le ordered
    refine ⟨(List.range (Candidate.ofContexts snippets contexts).length).map Candidate.sortText,
      ?_, ?_⟩
    · rw [map_mapIdx_eq_map_range fun index candidate => (candidate.get?_toJson index).2.1,
        List.map_map]
      rfl
    · refine List.pairwise_map.mpr (List.Pairwise.imp_of_mem ?_ List.pairwise_lt_range)
      intro first second _ member less
      have bound := List.mem_range.mp member
      exact Candidate.sortText_lt_sortText less (by omega)
  formats := by
    rw [map_mapIdx_eq_map fun index candidate => (candidate.get?_toJson index).2.2,
      Candidate.ofContexts_eq, List.map_map]
    refine List.map_congr_left fun entry _ => ?_
    simp [Candidate.ofKeyword, Candidate.snippetFormat, Candidate.plainFormat]

/-! ## What a workspace offers -/

namespace Workspace

variable {workspace : Workspace} {cursor : Cursor} {document : Document}

theorem completionItems_of_closed (closed : workspace.store.document? cursor.uri = none) :
    workspace.completionItems cursor = .arr [] := by
  unfold completionItems complete Store.document
  rw [closed]
  rfl

/-- Where there is no such place, nothing is on offer. -/
theorem completionItems_of_nowhere (found : workspace.store.document? cursor.uri = some document)
    (nowhere : document.text.offset? cursor.position = none) :
    workspace.completionItems cursor = .arr [] := by
  have before : document.text.before? cursor.position = none := Option.map_eq_none_iff.mp nowhere
  simp only [completionItems, complete, Store.document, Candidate.atPosition?, found, before,
    Option.map_none, bind, Except.bind]

theorem completionItems_of_before? (found : workspace.store.document? cursor.uri = some document)
    {before : List Char} (place : document.text.before? cursor.position = some before) :
    workspace.completionItems cursor =
      .arr ((Candidate.ofContexts workspace.config.snippets (workspace.classify before)).mapIdx
        fun index candidate => candidate.toJson index) := by
  simp only [completionItems, complete, Store.document, Candidate.atPosition?, found, place,
    Option.map_some, bind, Except.bind]

/-- Where there is one, the line before it tells what is on offer. -/
theorem exists_offer (ours : workspace.classify = Context.classify)
    (found : workspace.store.document? cursor.uri = some document) {offset : Nat}
    (place : document.text.offset? cursor.position = some offset) :
    ∃ items start, workspace.completionItems cursor = .arr items ∧
      (lineStarts document.text.chars)[cursor.position.line.toNat]? = some start ∧
      Offer workspace.config.snippets
        (Context.classify ((document.text.chars.take offset).drop start)) items := by
  obtain ⟨start, line, before⟩ := Text.before?_of_offset? place
  rw [completionItems_of_before? found before, ours]
  exact ⟨_, start, rfl, line,
    offer_of_sublist _ (Context.sublist_classify _) (Context.always_mem_classify _)⟩

/-- Nothing is on offer where a document is not open or a position denotes no offset of its text,
and nowhere else. -/
theorem exists_completionItems (ours : workspace.classify = Context.classify) (cursor : Cursor) :
    ∃ items, workspace.completionItems cursor = .arr items ∧
      (items = [] ↔ workspace.store.document? cursor.uri = none ∨
        ∃ document error, workspace.store.document? cursor.uri = some document ∧
          document.text.resolve cursor.position = .error error) ∧
      ∀ document offset, workspace.store.document? cursor.uri = some document →
        document.text.resolve cursor.position = .ok offset →
        ∃ start, (lineStarts document.text.chars)[cursor.position.line.toNat]? = some start ∧
          Offer workspace.config.snippets
            (Context.classify ((document.text.chars.take offset).drop start)) items := by
  cases found : workspace.store.document? cursor.uri with
  | none =>
    refine ⟨[], completionItems_of_closed found, iff_of_true rfl (.inl rfl), ?_⟩
    rintro _ _ ⟨⟩
  | some document =>
    cases place : document.text.offset? cursor.position with
    | none =>
      refine ⟨[], completionItems_of_nowhere found place, iff_of_true rfl (.inr ?_), ?_⟩
      · exact ⟨document, _, rfl, Text.resolve_eq_error.mpr ⟨place, rfl⟩⟩
      · rintro _ offset ⟨⟩ right
        cases place.symm.trans (Text.resolve_eq_ok.mp right)
    | some offset =>
      obtain ⟨items, start, given, line, offer⟩ := exists_offer ours found place
      refine ⟨items, given, iff_of_false offer.ne_nil ?_, ?_⟩
      · rintro (closed | ⟨_, error, ⟨⟩, wrong⟩)
        · cases closed
        · cases place.symm.trans (Text.resolve_eq_error.mp wrong).1
      · rintro _ _ ⟨⟩ right
        cases place.symm.trans (Text.resolve_eq_ok.mp right)
        exact ⟨start, line, offer⟩

theorem classify_perform (notice : Notice) (workspace : Workspace) :
    (notice.perform workspace).classify = workspace.classify := by
  cases notice <;> rfl

theorem classify_of_notified? {next : Workspace} {method : String} {params : Json}
    (taken : workspace.notified? method params = some next) :
    next.classify = workspace.classify := by
  rcases eq_or_eq_perform_of_notified? taken with rfl | ⟨notice, rfl⟩
  · rfl
  · exact classify_perform notice workspace

end Workspace

/-! ## Requests for completion -/

namespace Session

theorem classify_of_step {session next : Session} {message : Json} {sent : List Outgoing}
    (step : Step session message next sent) :
    next.workspace.classify = session.workspace.classify := by
  cases step with
  | notice phase told other taken =>
    have same := Workspace.classify_of_notified? taken
    exact same
  | begin | early | shutDown | answer | late | exit | ignored | response | invalid => rfl

/-- No message changes how places are told apart. -/
theorem classify_after (session : Session) (messages : List Json) :
    (session.after messages).workspace.classify = session.workspace.classify := by
  induction messages generalizing session with
  | nil => rfl
  | cons message rest ih =>
    exact (ih (session.handle message).1).trans (classify_of_step (session.step_handle message))

/-- Parameters are read just as the cursor that they hold. After any messages, a running session
answers a request for completion and stays as it is. The answer is an error if the parameters are
malformed, and then only. Otherwise it is a list of items, which is empty if the document is not
open or the position denotes no offset of its text, and then only. Where it does, the items offer
the keywords that fit behind the line so far, from the start of the line up to the offset. -/
theorem handle_completion (messages : List Json) {message id : Json}
    (running : (new.after messages).phase = .running)
    (asked : message.Requests id "textDocument/completion") :
    let session := new.after messages
    let store := session.workspace.store
    (∀ cursor, Cursor.ofJson message.parameters = .ok cursor ↔
      cursor.HeldBy message.parameters) ∧
    ∃ reply, session.handle message = (session, [reply]) ∧
      (reply.toJson.Refuses id (-32602) ↔
        ∃ error, Cursor.ofJson message.parameters = .error error) ∧
      ∀ cursor, Cursor.ofJson message.parameters = .ok cursor →
        ∃ items, reply.toJson.Answers id ∧ reply.toJson.get? "result" = some (.arr items) ∧
          (items = [] ↔ store.document? cursor.uri = none ∨
            ∃ document error, store.document? cursor.uri = some document ∧
              document.text.resolve cursor.position = .error error) ∧
          ∀ document offset, store.document? cursor.uri = some document →
            document.text.resolve cursor.position = .ok offset →
            ∃ start, (lineStarts document.text.chars)[cursor.position.line.toNat]? = some start ∧
              Offer session.workspace.config.snippets
                (Context.classify ((document.text.chars.take offset).drop start)) items := by
  intro session store
  have handled := session.handle_of_running running asked (by decide)
  refine ⟨fun cursor => Cursor.ofJson_eq_ok, _, handled, ?_⟩
  cases read : Cursor.ofJson message.parameters with
  | error error =>
    have reply : session.answer id "textDocument/completion" message.parameters =
        .failure id (.invalidParams error) := by
      simp only [answer, read]
    rw [reply]
    refine ⟨iff_of_true (Outgoing.refuses_failure _ _) ⟨error, rfl⟩, fun cursor right => ?_⟩
    cases right
  | ok cursor =>
    have reply : session.answer id "textDocument/completion" message.parameters =
        .result id (session.workspace.completionItems cursor) := by
      simp only [answer, read]
    have sent := Outgoing.get?_result id (session.workspace.completionItems cursor)
    rw [reply]
    constructor
    · refine iff_of_false (fun refuses => ?_) (fun ⟨error, wrong⟩ => by cases wrong)
      cases sent.symm.trans refuses.get?_result
    · rintro _ ⟨⟩
      have ours : session.workspace.classify = Context.classify := new.classify_after messages
      obtain ⟨items, given, empty, offers⟩ := Workspace.exists_completionItems ours cursor
      exact ⟨items, Outgoing.answers_result _ _, given ▸ sent, empty, offers⟩

/-- The messages by which a client begins and opens a document with one line. -/
def opening : List Json := [
  .object [("id", .int 1), ("method", .str "initialize")],
  .object [
    ("method", .str "textDocument/didOpen"),
    ("params", .object [("textDocument", .object [
      ("uri", .str "a"), ("version", .int 1), ("text", .str "  title: ")])])]]

def completing : Json :=
  .object [
    ("id", .int 2),
    ("method", .str "textDocument/completion"),
    ("params", .object [
      ("textDocument", .object [("uri", .str "a")]),
      ("position", .object [("line", .int 0), ("character", .int 9)])])]

/-- Behind a colon, properties, actions and types are on offer beside the modifiers. -/
theorem handle_completion_behind_colon :
    (new.after opening).phase = .running ∧
    completing.Requests (.int 2) "textDocument/completion" ∧
    ∃ reply items, (new.after opening).handle completing = (new.after opening, [reply]) ∧
      reply.toJson.get? "result" = some (.arr items) ∧
      Offer false [.afterColon, .typePosition, .always] items ∧ items.length = 37 := by
  have running : (new.after opening).phase = .running := rfl
  have asked : completing.Requests (.int 2) "textDocument/completion" := ⟨rfl, rfl⟩
  obtain ⟨-, reply, handled, -, right⟩ := handle_completion opening running asked
  obtain ⟨items, -, sent, -, offers⟩ := right ⟨"a", ⟨0, 9⟩⟩ rfl
  obtain ⟨start, line, offer⟩ := offers ⟨1, .ofString "  title: "⟩ 9 rfl rfl
  obtain rfl : 0 = start := Option.some.inj line
  have behind : (("  title: ".toList).take 9).drop 0 = "  title: ".toList := by decide
  have contexts : Context.classify "  title: ".toList = [.afterColon, .typePosition, .always] := by
    decide
  rw [Text.ofString, behind, contexts] at offer
  refine ⟨running, asked, reply, items, handled, sent, offer, ?_⟩
  rw [offer.items_eq, List.length_mapIdx]
  decide

end Session

end LanguageServer
