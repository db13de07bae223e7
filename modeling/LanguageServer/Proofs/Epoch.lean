import Mathlib.Data.List.Chain
import LanguageServer.Proofs.Notification
import LanguageServer.Proofs.Response
/-!
# Epochs of a document

What a client is told about one uri, over a whole conversation. `Transition` is what one message
does to the version of the document and what is published for the uri about it, with one case for
each change that counts; `Epochs` puts the transitions of a conversation together. A document is
published with its first version when it is opened, with a greater one when it is edited, with the
same one when the settings change, and without version when it is closed; nothing else is published
for the uri (`publication_epochs`).
-/

namespace LanguageServer

/-- The set published for a uri, if a message publishes one. -/
def Outgoing.set? (uri : String) : Outgoing → Option Publication
  | publication set => if set.uri = uri then some set else none
  | _ => none

/-- The sets published for a uri by some messages, in their order. -/
def Outgoing.sets (uri : String) (sent : List Outgoing) : List Publication :=
  sent.filterMap (set? uri)

/-- A change is about a uri if it sets or closes its document, or replaces the settings while the
document is open at some version. -/
def Notice.Concerns (uri : String) (version : Option Int32) : Notice → Prop
  | put key _ | close key => key = uri
  | configure _ => version ≠ none

namespace Session

/-- A message is a notification that makes a change, for the session runs and the notification means
this change. -/
structure Takes (session : Session) (message : Json) (method : String) (notice : Notice) :
    Prop where
  running : session.phase = .running
  told : message.Notifies method
  means : session.workspace.Means method message.parameters notice

/-- What a message does to the document of a uri: its version before, if it is open, the sets that
are published for the uri, and its version after. -/
inductive Transition (session : Session) (message : Json) (uri : String) :
    Option Int32 → List Publication → Option Int32 → Prop
  | opened {document : Document} {diagnostics : List Diagnostic}
      (taken : session.Takes message "textDocument/didOpen" (.put uri document)) :
      Transition session message uri none [⟨uri, some document.version, diagnostics⟩]
        (some document.version)
  | edited {version : Int32} {document : Document} {diagnostics : List Diagnostic}
      (taken : session.Takes message "textDocument/didChange" (.put uri document))
      (newer : version < document.version) :
      Transition session message uri (some version) [⟨uri, some document.version, diagnostics⟩]
        (some document.version)
  | renewed {version : Int32} {config : Config} {diagnostics : List Diagnostic}
      (taken : session.Takes message "workspace/didChangeConfiguration" (.configure config)) :
      Transition session message uri (some version) [⟨uri, some version, diagnostics⟩]
        (some version)
  | closed {version : Int32}
      (taken : session.Takes message "textDocument/didClose" (.close uri)) :
      Transition session message uri (some version) [⟨uri, none, []⟩] none
  | silent {version : Option Int32}
      (nothing : ∀ method notice, session.Takes message method notice →
        ¬notice.Concerns uri version) :
      Transition session message uri version [] version

/-- The transitions of a conversation one after another. An epoch starts where there is no version
and the document is opened, and goes on to where it is closed. -/
inductive Epochs (uri : String) :
    Session → Option Int32 → List Json → List Publication → Option Int32 → Prop
  | done {session : Session} {version : Option Int32} : Epochs uri session version [] [] version
  | next {session : Session} {message : Json} {rest : List Json}
      {before middle last : Option Int32} {now later : List Publication} :
      session.Transition message uri before now middle →
      Epochs uri (session.handle message).1 middle rest later last →
      Epochs uri session before (message :: rest) (now ++ later) last

end Session

/-! ## What is sent for one uri -/

namespace Outgoing

theorem sets_append (uri : String) (first second : List Outgoing) :
    sets uri (first ++ second) = sets uri first ++ sets uri second :=
  List.filterMap_append

theorem sets_publications (uri : String) (published : List Publication) :
    sets uri (published.map .publication) = published.filter (·.uri = uri) := by
  have same : set? uri ∘ publication = Option.guard fun set => decide (set.uri = uri) := by
    funext set
    simp [set?, Option.guard]
  rw [sets, List.filterMap_map, same, List.filterMap_eq_filter]

/-- Only publications are sent as such. -/
theorem publishes_iff (message : Outgoing) :
    message.toJson.Publishes ↔ ∃ set, message = publication set := by
  constructor
  · intro publishes
    cases message with
    | result id value => exact absurd publishes (answers_result id value).not_publishes
    | failure id error => exact absurd publishes (refuses_failure id error).1.not_publishes
    | publication set => exact ⟨set, rfl⟩
  · rintro ⟨set, rfl⟩
    exact publishes_publication set

theorem set?_eq_none_of_not_publishes {uri : String} {message : Outgoing}
    (h : ¬message.toJson.Publishes) : message.set? uri = none := by
  cases message with
  | publication set => exact absurd (publishes_publication set) h
  | result | failure => rfl

end Outgoing

/-- Of an ascending table only one entry can have a key. -/
theorem Table.Ascending.filter_key {α : Type} {table : Table α} (h : Ascending table)
    (key : String) :
    table.filter (fun entry => entry.1 = key) =
      (lookup key table).toList.map fun value => (key, value) := by
  induction table with
  | nil => rfl
  | cons head rest ih =>
    obtain ⟨k, v⟩ := head
    obtain ⟨least, others⟩ := List.pairwise_cons.mp h
    rw [lookup_cons]
    by_cases same : key = k
    · subst same
      have once : rest.filter (fun entry => entry.1 = key) = [] := by
        refine List.filter_eq_nil_iff.mpr fun entry member equal => ?_
        have less := least entry member
        rw [of_decide_eq_true equal] at less
        exact String.lt_irrefl key less
      simp [once]
    · simp [same, Ne.symm same, ih others]

/-! ## One message -/

namespace Workspace

/-- A notification means one change at most. -/
theorem Means.unique {workspace : Workspace} {method : String} {params : Json} {a b : Notice}
    (first : workspace.Means method params a) (second : workspace.Means method params b) :
    a = b := by
  -- The method tells the kind of change. What the parameters hold and what a batch makes of a text
  -- are what is computed, and so no two things.
  cases first <;> cases second <;>
    simp_all [← Opening.ofJson_eq_ok, ← Edit.ofJson_eq_ok, ← Json.documentUri_eq_ok,
      ← Text.applyAll_eq_ok_iff_replays]

end Workspace

namespace Session

variable {session : Session} {message : Json} {method : String} {notice : Notice}

theorem Takes.unique {name : String} {other : Notice} (first : session.Takes message method notice)
    (second : session.Takes message name other) : notice = other := by
  obtain rfl := first.told.method_eq second.told
  exact first.means.unique second.means

/-- A message that makes no change leaves all documents as they are, and publishes nothing. -/
theorem Valid.handle_of_not_takes (valid : session.Valid) (uri : String)
    (nothing : ∀ method notice, ¬session.Takes message method notice) :
    (session.handle message).1.workspace.store = session.workspace.store ∧
      Outgoing.sets uri (session.handle message).2 = [] := by
  rcases message.kinds with ⟨id, method, asked⟩ | ⟨method, told⟩ | responds | meaningless
  · rw [handle_of_requests session asked]
    refine ⟨valid.store_handleRequest id method message.parameters, ?_⟩
    have answers := session.answers_handleRequest id method message.parameters
    exact List.filterMap_cons_none (Outgoing.set?_eq_none_of_not_publishes answers.not_publishes)
  · by_cases running : session.phase = .running
    · have meaningless (notice : Notice) :
          ¬session.workspace.Means method message.parameters notice :=
        fun means => nothing method notice ⟨running, told, means⟩
      obtain ⟨same, silent⟩ := handle_of_not_means valid.idle told meaningless
      rw [same, silent]
      exact ⟨rfl, rfl⟩
    · rw [handle_of_notifies session told]
      unfold handleNotification
      rw [if_neg running]
      split <;> exact ⟨rfl, rfl⟩
  · rw [handle_of_responds session responds]
    exact ⟨rfl, rfl⟩
  · rw [handle_of_meaningless session meaningless]
    exact ⟨rfl, rfl⟩

end Session

namespace Notice

variable {workspace : Workspace} {uri : String}

/-- New settings call for one publication of an open document, and for none of a closed one. -/
theorem publications_configure (ascending : Table.Ascending workspace.store.documents)
    (old new : Config) (uri : String) :
    ((configure old).publications workspace.store.documents new).filter (·.uri = uri) =
      (workspace.store.document? uri).toList.map fun document => document.publication uri new := by
  have named : ((fun set : Publication => decide (set.uri = uri)) ∘
      fun entry : String × Document => entry.2.publication entry.1 new) =
      fun entry => decide (entry.1 = uri) := rfl
  rw [publications, List.filter_map, named, ascending.filter_key, List.map_map]
  rfl

/-- A change that is not about a uri leaves its document as it is, and calls for no publication. -/
theorem silent_of_not_concerns (ascending : Table.Ascending workspace.store.documents)
    {notice : Notice} (config : Config)
    (other : ¬notice.Concerns uri ((workspace.store.document? uri).map Document.version)) :
    (notice.publications workspace.store.documents config).filter (·.uri = uri) = [] ∧
      (notice.perform workspace).store.document? uri = workspace.store.document? uri := by
  cases notice with
  | put key document =>
    have different : key ≠ uri := other
    refine ⟨by simp [publications, Document.publication, different], ?_⟩
    exact (Store.document?_put _ _ _ _).trans (if_neg different.symm)
  | close key =>
    have different : key ≠ uri := other
    refine ⟨by simp [publications, different], ?_⟩
    exact (Store.document?_close _ _ _).trans (if_neg different.symm)
  | configure settings =>
    have absent : workspace.store.document? uri = none := by simpa [Concerns] using other
    rw [publications_configure ascending, absent]
    exact ⟨rfl, (Store.document?_scheduleAll _ _).trans absent⟩

end Notice

namespace Session

/-- The version at which a uri is open. -/
def version? (session : Session) (uri : String) : Option Int32 :=
  (session.workspace.store.document? uri).map Document.version

theorem version?_eq_some {session : Session} {uri : String} {document : Document}
    (found : session.workspace.store.document? uri = some document) :
    session.version? uri = some document.version := by
  rw [version?, found, Option.map_some]

theorem version?_eq_none {session : Session} {uri : String}
    (absent : session.workspace.store.document? uri = none) : session.version? uri = none := by
  rw [version?, absent, Option.map_none]

/-- A change that is about a uri makes one of the first four transitions. -/
theorem transition_of_concerns {session : Session} {message : Json} {method : String}
    {notice : Notice} (ascending : Table.Ascending session.workspace.store.documents)
    (taken : session.Takes message method notice) {uri : String}
    (about : notice.Concerns uri (session.version? uri)) :
    session.Transition message uri (session.version? uri)
      ((notice.publications session.workspace.store.documents
        (notice.perform session.workspace).config).filter (·.uri = uri))
      (((notice.perform session.workspace).store.document? uri).map Document.version) := by
  cases taken.means with
  | @opening opening named read absent =>
    subst named
    obtain rfl : opening.uri = uri := about
    rw [version?_eq_none absent]
    simpa [Notice.publications, Notice.perform, Store.document?_put, Document.publication]
      using Transition.opened taken
  | @edit edit old text named read found newer applied =>
    subst named
    obtain rfl : edit.uri = uri := about
    rw [version?_eq_some found]
    simpa [Notice.publications, Notice.perform, Store.document?_put, Document.publication]
      using Transition.edited taken newer
  | @closing key old named read found =>
    subst named
    obtain rfl : key = uri := about
    rw [version?_eq_some found]
    simpa [Notice.publications, Notice.perform, Workspace.close, Store.document?_close]
      using Transition.closed taken
  | settings named read given =>
    subst named
    obtain ⟨old, found⟩ : ∃ old, session.workspace.store.document? uri = some old := by
      simpa [Notice.Concerns, version?, Option.ne_none_iff_exists'] using about
    have still : ∀ config, ((Notice.configure config).perform
        session.workspace).store.document? uri = some old :=
      fun _ => (Store.document?_scheduleAll _ _).trans found
    rw [version?_eq_some found, still, Notice.publications_configure ascending, found]
    exact .renewed taken

/-- Handling a message is a transition for every uri. -/
theorem Valid.transition_handle {session : Session} (valid : session.Valid) (message : Json)
    (uri : String) :
    session.Transition message uri (session.version? uri)
      (Outgoing.sets uri (session.handle message).2)
      ((session.handle message).1.version? uri) := by
  by_cases change : ∃ method notice, session.Takes message method notice
  · obtain ⟨method, notice, taken⟩ := change
    have handled := handle_of_means taken.running taken.told taken.means
    have document : (session.handle message).1.version? uri =
        ((notice.perform session.workspace).store.document? uri).map Document.version := by
      rw [handled]
      rfl
    have sent : Outgoing.sets uri (session.handle message).2 =
        (notice.publications session.workspace.store.documents
          (notice.perform session.workspace).config).filter (·.uri = uri) := by
      rw [handled, Outgoing.sets_publications,
        Workspace.publish_perform valid.idle valid.ascending taken.means]
    rw [document, sent]
    by_cases about : notice.Concerns uri (session.version? uri)
    · exact transition_of_concerns valid.ascending taken about
    · obtain ⟨silent, same⟩ := Notice.silent_of_not_concerns valid.ascending
        (notice.perform session.workspace).config about
      rw [silent, same]
      refine .silent fun method other again => ?_
      rwa [← taken.unique again]
  · have nothing : ∀ method notice, ¬session.Takes message method notice :=
      fun method notice taken => change ⟨method, notice, taken⟩
    obtain ⟨same, silent⟩ := valid.handle_of_not_takes uri nothing
    have document : (session.handle message).1.version? uri = session.version? uri := by
      rw [version?, version?, same]
    rw [silent, document]
    exact .silent fun method notice taken => absurd taken (nothing method notice)

/-! ## Many messages -/

/-- What a working outlet takes for a uri are the epochs of its document. -/
theorem Valid.epochs_converse {session : Session} (valid : session.Valid) {outlet : Outlet}
    (works : outlet.Works) (messages : List Json) (uri : String) :
    Epochs uri session (session.version? uri) messages
      (Outgoing.sets uri (session.converse outlet messages).2.taken)
      ((session.after messages).version? uri) := by
  induction messages generalizing session outlet with
  | nil => exact .done
  | cons message rest ih =>
    obtain ⟨goesOn, taken, -⟩ := works.send (session.handle message).2
    have later := valid.step (step_handle session message)
    simp only [converse, taken, Outgoing.sets_append]
    exact .next (valid.transition_handle message uri) (ih later goesOn)

/-- What may follow a version, or its absence, in what is published for one uri: a version does not
go back, and what is closed is not closed again. -/
def MayFollow : Option Int32 → Option Int32 → Prop
  | some version, some next => version ≤ next
  | some _, none | none, some _ => True
  | none, none => False

/-- A transition publishes the version that it leaves, or it publishes nothing and leaves the one
that it found. -/
theorem Transition.publishes {session : Session} {message : Json} {uri : String}
    {before after : Option Int32} {sets : List Publication}
    (transition : session.Transition message uri before sets after) :
    (sets = [] ∧ after = before) ∨ ∃ set, sets = [set] ∧ set.version = after ∧
      MayFollow before after ∧ set.uri = uri ∧ (after = none → set.diagnostics = []) := by
  cases transition with
  | opened => exact .inr ⟨_, rfl, rfl, trivial, rfl, by simp⟩
  | edited _ newer => exact .inr ⟨_, rfl, rfl, Int32.le_of_lt newer, rfl, by simp⟩
  | renewed => exact .inr ⟨_, rfl, rfl, Int32.le_refl _, rfl, by simp⟩
  | closed => exact .inr ⟨_, rfl, rfl, trivial, rfl, fun _ => rfl⟩
  | silent => exact .inl ⟨rfl, rfl⟩

theorem Epochs.isChain {uri : String} {session : Session} {before last : Option Int32}
    {messages : List Json} {sets : List Publication}
    (epochs : Epochs uri session before messages sets last) :
    (before :: sets.map Publication.version).IsChain MayFollow ∧
      (before :: sets.map Publication.version).getLast? = some last := by
  induction epochs with
  | done => exact ⟨.singleton _, rfl⟩
  | next transition _ ih =>
    rcases transition.publishes with ⟨rfl, rfl⟩ | ⟨set, rfl, rfl, follows, -⟩
    · exact ih
    · exact ⟨.cons_cons follows ih.1, ih.2⟩

theorem Epochs.mem {uri : String} {session : Session} {before last : Option Int32}
    {messages : List Json} {sets : List Publication}
    (epochs : Epochs uri session before messages sets last) :
    ∀ set ∈ sets, set.uri = uri ∧ (set.version = none → set.diagnostics = []) := by
  induction epochs with
  | done => intro set member; cases member
  | next transition _ ih =>
    intro set member
    rcases List.mem_append.mp member with now | later
    · rcases transition.publishes with ⟨rfl, -⟩ | ⟨only, rfl, rfl, -, named, closed⟩
      · cases now
      · obtain rfl := List.mem_singleton.mp now
        exact ⟨named, closed⟩
    · exact ih set later

/-- Whatever messages a session gets, a working outlet takes all that is sent. What is published for
a uri on the way are the epochs of its document: the first version when an opening is accepted, a
greater one for every accepted edit, the same one again for new settings, and then nothing but one
set without version and diagnostics when the document is closed; before and between the epochs there
is nothing. So no version goes back until the document is closed, and when the conversation is over
an open document was last published at its version, and a closed one without any diagnostics. -/
theorem publication_epochs (messages : List Json) (uri : String) :
    let delivery := (new.converse .working messages).2
    let sets := Outgoing.sets uri delivery.taken
    let document? := (new.after messages).workspace.store.document? uri
    delivery.complete = true ∧
    (∀ outgoing : Outgoing, outgoing.toJson.Publishes ↔ ∃ set, outgoing = .publication set) ∧
    (∀ set : Publication,
      let params := (Outgoing.publication set).toJson.parameters
      params.get? "uri" = some (.str set.uri) ∧
      params.get? "version" = set.version.map (fun version => .int version.toInt) ∧
      params.get? "diagnostics" = some (.arr (set.diagnostics.map Diagnostic.toJson))) ∧
    Epochs uri new none messages sets (document?.map Document.version) ∧
    (none :: sets.map Publication.version).IsChain MayFollow ∧
    (∀ document, document? = some document →
      ∃ set, sets.getLast? = some set ∧ set.version = some document.version) ∧
    (document? = none → ∀ set, sets.getLast? = some set → set = ⟨uri, none, []⟩) := by
  intro delivery sets document?
  have epochs : Epochs uri new none messages sets (document?.map Document.version) :=
    valid_new.epochs_converse Outlet.works_working messages uri
  obtain ⟨chain, last⟩ := epochs.isChain
  refine ⟨(answered?_converse new Outlet.works_working messages).1,
    Outgoing.publishes_iff, Outgoing.parameters_publication, epochs, chain, ?_, ?_⟩
  · intro document opened
    rw [opened, List.getLast?_cons, List.getLast?_map] at last
    cases final : sets.getLast? with
    | none => simp [final] at last
    | some set => exact ⟨set, rfl, by simpa [final] using last⟩
  · rintro closed set final
    rw [closed, List.getLast?_cons, List.getLast?_map, final] at last
    obtain ⟨named, silent⟩ := epochs.mem set (List.mem_of_getLast? final)
    have versionless : set.version = none := by simpa using last
    obtain ⟨_, _, _⟩ := set
    cases named
    cases versionless
    exact congrArg _ (silent rfl)

example :
    let notice (method : String) (members : List (String × Json)) : Json :=
      .object [("method", .str method), ("params", .object members)]
    let named (version : Int) : Json := .object [("uri", .str "a"), ("version", .int version)]
    let opening (version : Int) : Json := notice "textDocument/didOpen"
      [("textDocument", (named version).set "text" (.str "page A B:"))]
    let edit (version : Int) : Json := notice "textDocument/didChange"
      [("textDocument", named version), ("contentChanges", .arr [.object [("text", .str "")]])]
    let closing : Json := notice "textDocument/didClose" [("textDocument", named 0)]
    let messages : List Json :=
      [.object [("method", .str "initialize"), ("id", .int 1)], edit 2, opening 3, opening 4,
        edit 3, edit 7, closing, closing, opening 1]
    (Outgoing.sets "a" (new.converse .working messages).2.taken).map
        (fun set => (set.version, set.diagnostics.length)) =
      [(some 3, 1), (some 7, 0), (none, 0), (some 1, 1)] := by
  decide +kernel

end Session

end LanguageServer
