import LanguageServer.Proofs.Conversation
/-!
# What a notification brings about

While a session runs, a notification that means a change publishes just what the change calls for,
and any other notification publishes nothing and changes no document (`notification_publications`).
What is written about a set of diagnostics is told by its members: those of the set
(`Outgoing.parameters_publication`), and those of each diagnostic in it (`Diagnostic.HeldBy`).
-/

namespace LanguageServer

/-! ## What is written -/

/-- The number that tells a severity, with the gravest first. -/
inductive Severity.Numbered : Severity → Int → Prop
  | error : Numbered error 1
  | warning : Numbered warning 2
  | information : Numbered information 3
  | hint : Numbered hint 4

/-- A value holds a diagnostic, and nothing beside it. Only one that a rule has found has a code. -/
structure Diagnostic.HeldBy (diagnostic : Diagnostic) (value : Json) : Prop where
  range : ∃ member, value.get? "range" = some member ∧ diagnostic.range.HeldBy member
  severity : ∃ number, value.get? "severity" = some (.int number) ∧
    diagnostic.severity.Numbered number
  code : value.get? "code" = diagnostic.rule.map fun
    | .multiWordName => .str "multi-word-name"
  source : value.get? "source" = some (.str "blueprint")
  message : value.get? "message" = some (.str diagnostic.message)
  only : ∀ name, name ∉ ["range", "severity", "code", "source", "message"] → value.get? name = none

theorem Severity.numbered_toNat (severity : Severity) : severity.Numbered severity.toNat := by
  cases severity with
  | error => exact .error
  | warning => exact .warning
  | information => exact .information
  | hint => exact .hint

namespace Diagnostic

/-- What `toJson` has under a name. -/
theorem get?_toJson (diagnostic : Diagnostic) (name : String) :
    diagnostic.toJson.get? name =
      if name = "code" then diagnostic.rule.map fun rule => .str rule.code
      else if name = "message" then some (.str diagnostic.message)
      else if name = "source" then some (.str source)
      else if name = "severity" then some (.nat diagnostic.severity.toNat)
      else if name = "range" then some diagnostic.range.toJson
      else none := by
  unfold toJson
  cases diagnostic.rule with
  | some rule => simp [Json.set, Json.object, Json.get?, Table.ofList, Table.lookup_insert]
  | none =>
    by_cases coded : name = "code"
    · subst coded
      simp [Json.object, Json.get?, Table.ofList, Table.lookup_insert]
    · simp [coded, Json.object, Json.get?, Table.ofList, Table.lookup_insert]

theorem heldBy_toJson (diagnostic : Diagnostic) : diagnostic.HeldBy diagnostic.toJson where
  range := ⟨diagnostic.range.toJson, get?_toJson _ _, diagnostic.range.heldBy_toJson⟩
  severity := ⟨diagnostic.severity.toNat, get?_toJson _ _, diagnostic.severity.numbered_toNat⟩
  code := by
    refine (get?_toJson _ _).trans ?_
    rw [if_pos rfl]
    exact Option.map_congr fun | .multiWordName, _ => rfl
  source := get?_toJson _ _
  message := get?_toJson _ _
  only := by
    intro name other
    simp only [List.mem_cons, List.not_mem_nil, or_false, not_or] at other
    rw [get?_toJson]
    simp [other]

end Diagnostic

/-- What a published set tells the client: no version, if the document is closed. -/
theorem Outgoing.parameters_publication (set : Publication) :
    (publication set).toJson.parameters.get? "uri" = some (.str set.uri) ∧
    (publication set).toJson.parameters.get? "version" =
      set.version.map (fun version => .int version.toInt) ∧
    (publication set).toJson.parameters.get? "diagnostics" =
      some (.arr (set.diagnostics.map Diagnostic.toJson)) := by
  have params : (publication set).toJson.parameters = set.toJson := by
    simp [Json.parameters, toJson, notificationJson, Json.object, Json.get?, Table.ofList,
      Table.lookup_insert]
  rw [params]
  unfold Publication.toJson
  cases set.version with
  | none => simp [Json.object, Json.get?, Table.ofList, Table.lookup_insert]
  | some version => simp [Json.object, Json.set, Json.get?, Table.ofList, Table.lookup_insert]

/-- The diagnostics of a set are written one by one, in their order. -/
theorem Outgoing.diagnostics_publication (set : Publication) :
    ∃ items, (publication set).toJson.parameters.get? "diagnostics" = some (.arr items) ∧
      List.Forall₂ Diagnostic.HeldBy set.diagnostics items := by
  refine ⟨_, (parameters_publication set).2.2, ?_⟩
  rw [List.forall₂_map_right_iff, List.forall₂_same]
  intro diagnostic _
  exact diagnostic.heldBy_toJson

/-! ## What is brought about -/

namespace Workspace

theorem publish_of_idle {workspace : Workspace} (idle : workspace.store.pending = []) :
    workspace.publish = ([], workspace) := by
  obtain ⟨⟨documents, pending⟩, config, classify⟩ := workspace
  cases idle
  rfl

/-- The notification to exit means no change. -/
theorem Means.ne_exit {workspace : Workspace} {method : String} {params : Json} {notice : Notice}
    (means : workspace.Means method params notice) : method ≠ "exit" := by
  cases means with
  | opening named | edit named | closing named | settings named =>
    rw [named]
    decide

end Workspace

namespace Session

variable {session : Session} {message : Json} {method : String}

/-- A running session makes the change that a notification means, and publishes what is queued
then. -/
theorem handle_of_means (running : session.phase = .running) (told : message.Notifies method)
    {notice : Notice} (means : session.workspace.Means method message.parameters notice) :
    session.handle message =
      ({ session with workspace := (notice.perform session.workspace).publish.2 },
        (notice.perform session.workspace).publish.1.map .publication) := by
  rw [handle_of_notifies session told]
  unfold handleNotification
  rw [if_neg means.ne_exit, if_pos running, Workspace.notified?_of_means means]

/-- With nothing queued before, a notification that means no change has no effect on the workspace,
and nothing is sent about it. -/
theorem handle_of_not_means (idle : session.workspace.store.pending = [])
    (told : message.Notifies method)
    (meaningless : ∀ notice, ¬session.workspace.Means method message.parameters notice) :
    (session.handle message).1.workspace = session.workspace ∧ (session.handle message).2 = [] := by
  have step := session.step_handle message
  generalize (session.handle message).1 = next, (session.handle message).2 = sent at step
  cases step with
  | begin _ asked | early _ asked | shutDown _ asked | answer _ asked | late _ asked =>
    exact absurd told asked.not_notifies
  | exit | ignored | response => exact ⟨rfl, rfl⟩
  | notice _ again _ taken =>
    -- It is of a kind that is taken, so the queue is published, but there is nothing in it.
    obtain rfl := told.method_eq again
    rw [Workspace.eq_of_notified?_of_not_means meaningless taken,
      Workspace.publish_of_idle idle]
    exact ⟨rfl, rfl⟩
  | invalid nameless => exact absurd told.1 (nameless.1 method)

/-- After any conversation no uri waits, and the documents stand in the ascending order of the bytes
of their uris. A published set is written with its uri, with its version if it has one, and with an
item for each of its diagnostics, which holds just this diagnostic. If the session runs after the
conversation, a working outlet takes all that is sent about a notification. One that means a change
makes this change and brings about just the publications that the change calls for, under the
settings after it: one of the new version and text for a document that is set, one without version
and diagnostics for a document that is closed, and one for each open document, in their order, for
new settings. Any other notification sends nothing and leaves all documents and settings as they
are. -/
theorem notification_publications (messages : List Json) :
    let session := new.after messages
    let workspace := session.workspace
    let documents := workspace.store.documents
    workspace.store.pending = [] ∧
    (∀ uri document,
      (uri, document) ∈ documents ↔ workspace.store.document? uri = some document) ∧
    documents.Pairwise (fun a b => Utf8.encode a.1.toList < Utf8.encode b.1.toList) ∧
    (∀ set : Publication,
      let written := (Outgoing.publication set).toJson
      let params := written.parameters
      written.Publishes ∧
      params.get? "uri" = some (.str set.uri) ∧
      params.get? "version" = set.version.map (fun version => .int version.toInt) ∧
      params.get? "diagnostics" = some (.arr (set.diagnostics.map Diagnostic.toJson)) ∧
      ∃ items, params.get? "diagnostics" = some (.arr items) ∧
        List.Forall₂ Diagnostic.HeldBy set.diagnostics items) ∧
    (session.phase = .running → ∀ message method, message.Notifies method →
      let next := (session.handle message).1
      let delivery := Outlet.working.send (session.handle message).2
      delivery.complete = true ∧
      (∀ notice, workspace.Means method message.parameters notice →
        delivery.taken =
          (notice.publications documents next.workspace.config).map .publication ∧
        next.workspace = (notice.perform workspace).publish.2) ∧
      ((∀ notice, ¬workspace.Means method message.parameters notice) →
        delivery.taken = [] ∧ next.workspace = workspace)) := by
  intro session workspace documents
  have valid : session.Valid := valid_after messages
  refine ⟨valid.idle, fun _ _ => valid.ascending.mem_iff, valid.ascending.bytes_lt, ?_, ?_⟩
  · intro set written params
    obtain ⟨uri, version, diagnostics⟩ := Outgoing.parameters_publication set
    exact ⟨Outgoing.publishes_publication set, uri, version, diagnostics,
      Outgoing.diagnostics_publication set⟩
  intro running message method told next delivery
  obtain ⟨-, taken, complete⟩ := Outlet.works_working.send (session.handle message).2
  have taken : delivery.taken = (session.handle message).2 := taken
  refine ⟨complete, ?_, ?_⟩
  · intro notice means
    have handled := handle_of_means running told means
    have changed : next.workspace = (notice.perform workspace).publish.2 :=
      congrArg (fun outcome => outcome.1.workspace) handled
    refine ⟨?_, changed⟩
    rw [taken, congrArg Prod.snd handled, changed]
    exact congrArg _ (Workspace.publish_perform valid.idle valid.ascending means)
  · intro meaningless
    obtain ⟨same, silent⟩ := handle_of_not_means valid.idle told meaningless
    exact ⟨taken.trans silent, same⟩

end Session

end LanguageServer
