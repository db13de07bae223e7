import LanguageServer.Proofs.Decoding
import LanguageServer.Proofs.Publication
import LanguageServer.Proofs.Replay
import LanguageServer.Proofs.Table
import LanguageServer.Session
/-!
# What notifications mean

A notification that is well formed and acceptable means one change of a workspace (`Notice`), and
any other means none (`Means`). The workspace makes just this change (`notified?_of_means`,
`eq_of_notified?_of_not_means`), and with nothing waiting before it publishes just what the change
calls for (`publish_perform`).
-/

namespace LanguageServer

/-- A change of a workspace: a document is set or closed, or the settings are replaced. -/
inductive Notice
  | put (uri : String) (document : Document)
  | close (uri : String)
  | configure (config : Config)

/-- The publication of an open document under some settings. -/
def Document.publication (document : Document) (uri : String) (config : Config) : Publication :=
  ⟨uri, some document.version, if config.diagnostics then Diagnostic.scan document.text else []⟩

namespace Notice

def perform (workspace : Workspace) : Notice → Workspace
  | put uri document => { workspace with store := workspace.store.put uri document }
  | close uri => workspace.close uri
  | configure config => workspace.configure config

/-- What has to be published about a change, if these were the documents before it and these are the
settings after it. -/
def publications (documents : Table Document) (config : Config) : Notice → List Publication
  | put uri document => [document.publication uri config]
  | close uri => [⟨uri, none, []⟩]
  | configure _ => documents.map fun entry => entry.2.publication entry.1 config

end Notice

namespace Workspace

/-- When a notification counts, and what it means then. -/
inductive Means (workspace : Workspace) (method : String) (params : Json) : Notice → Prop
  | opening {opening : Opening} (named : method = "textDocument/didOpen")
      (held : opening.HeldBy params)
      (absent : workspace.store.document? opening.uri = none) :
      Means workspace method params (.put opening.uri ⟨opening.version, .ofString opening.text⟩)
  | edit {edit : Edit} {document : Document} {text : Text}
      (named : method = "textDocument/didChange") (held : edit.HeldBy params)
      (found : workspace.store.document? edit.uri = some document)
      (newer : document.version < edit.version)
      (replayed : Replays document.text.chars edit.changes text.chars) :
      Means workspace method params (.put edit.uri ⟨edit.version, text⟩)
  | closing {uri : String} {document : Document} (named : method = "textDocument/didClose")
      (held : params.NamesDocument uri)
      (found : workspace.store.document? uri = some document) :
      Means workspace method params (.close uri)
  | settings {settings : Json} (named : method = "workspace/didChangeConfiguration")
      (read : params.at? ["settings", "blueprint"] = some settings) (given : settings ≠ .null) :
      Means workspace method params (.configure (workspace.config.override settings))

/-! ## The change that is made -/

variable {workspace : Workspace} {method : String} {params : Json}

theorem openDocument_eq_ok {next : Workspace} {uri : String} {text : Text} {version : Int32} :
    workspace.openDocument uri text version = .ok next ↔
      workspace.store.document? uri = none ∧
        next = { workspace with store := workspace.store.put uri ⟨version, text⟩ } := by
  constructor
  · exact eq_put_of_openDocument
  · rintro ⟨absent, rfl⟩
    exact bind_eq_ok.mpr ⟨_, Store.openDocument_eq_ok.mpr ⟨absent, rfl⟩, rfl⟩

theorem edit_eq_ok {next : Workspace} {uri : String} {changes : List Change} {version : Int32} :
    workspace.edit uri changes version = .ok next ↔
      ∃ document text, workspace.store.document? uri = some document ∧
        document.version < version ∧ document.text.applyAll changes = .ok text ∧
        next = { workspace with store := workspace.store.put uri ⟨version, text⟩ } := by
  constructor
  · intro accepted
    obtain ⟨store, edited, ⟨⟩⟩ := bind_eq_ok.mp accepted
    obtain ⟨document, text, found, newer, applied, rfl⟩ := Store.edit_eq_ok.mp edited
    exact ⟨document, text, found, newer, applied, rfl⟩
  · rintro ⟨document, text, found, newer, applied, rfl⟩
    exact bind_eq_ok.mpr
      ⟨_, Store.edit_eq_ok.mpr ⟨document, text, found, newer, applied, rfl⟩, rfl⟩

theorem close_of_closed {uri : String} (closed : workspace.store.document? uri = none) :
    workspace.close uri = workspace := by
  rw [close, Store.close_of_closed closed]

theorem takeOpening_of_held {opening : Opening} (held : opening.HeldBy params)
    (absent : workspace.store.document? opening.uri = none) :
    workspace.takeOpening params =
      { workspace with
        store := workspace.store.put opening.uri
          ⟨opening.version, .ofString opening.text⟩ } := by
  unfold takeOpening
  rw [Opening.ofJson_eq_ok.mpr held]
  simp only [openDocument_eq_ok.mpr ⟨absent, rfl⟩]

theorem takeOpening_eq_self
    (refused : ∀ opening : Opening, opening.HeldBy params →
      workspace.store.document? opening.uri ≠ none) :
    workspace.takeOpening params = workspace := by
  unfold takeOpening
  split
  · rename_i opening read
    split
    · rename_i opened
      have held := Opening.ofJson_eq_ok.mp read
      exact absurd (openDocument_eq_ok.mp opened).1 (refused opening held)
    · rfl
  · rfl

theorem takeEdit_of_held {edit : Edit} {document : Document} {text : Text}
    (held : edit.HeldBy params) (found : workspace.store.document? edit.uri = some document)
    (newer : document.version < edit.version)
    (replayed : Replays document.text.chars edit.changes text.chars) :
    workspace.takeEdit params =
      { workspace with store := workspace.store.put edit.uri ⟨edit.version, text⟩ } := by
  have applied := Text.applyAll_eq_ok_iff_replays.mpr replayed
  unfold takeEdit
  rw [Edit.ofJson_eq_ok.mpr held]
  simp only [edit_eq_ok.mpr ⟨_, _, found, newer, applied, rfl⟩]

theorem takeEdit_eq_self
    (refused : ∀ (edit : Edit) document text, edit.HeldBy params →
      workspace.store.document? edit.uri = some document → document.version < edit.version →
      ¬Replays document.text.chars edit.changes text) :
    workspace.takeEdit params = workspace := by
  unfold takeEdit
  split
  · rename_i edit read
    split
    · rename_i edited
      have held := Edit.ofJson_eq_ok.mp read
      obtain ⟨document, text, found, newer, applied, -⟩ := edit_eq_ok.mp edited
      have replayed := Text.applyAll_eq_ok_iff_replays.mp applied
      exact absurd replayed (refused edit document text.chars held found newer)
    · rfl
  · rfl

theorem takeClosing_of_held {uri : String} (held : params.NamesDocument uri) :
    workspace.takeClosing params = workspace.close uri := by
  unfold takeClosing
  rw [Json.documentUri_eq_ok.mpr held]

theorem takeClosing_eq_self
    (closed : ∀ uri, params.NamesDocument uri → workspace.store.document? uri = none) :
    workspace.takeClosing params = workspace := by
  unfold takeClosing
  split
  · rename_i uri read
    exact close_of_closed (closed uri (Json.documentUri_eq_ok.mp read))
  · rfl

theorem reconfigure_of_given {settings : Json}
    (read : params.at? ["settings", "blueprint"] = some settings) (given : settings ≠ .null) :
    workspace.reconfigure params = workspace.configure (workspace.config.override settings) := by
  unfold reconfigure
  rw [read]
  cases settings with
  | null => contradiction
  | _ => rfl

theorem reconfigure_eq_self
    (missing : ∀ settings, params.at? ["settings", "blueprint"] = some settings →
      settings = .null) :
    workspace.reconfigure params = workspace := by
  unfold reconfigure
  split
  · rename_i settings read
    rw [missing settings read]
    exact if_pos rfl
  · rfl

/-- A notification that means a change makes this change. -/
theorem notified?_of_means {notice : Notice} (h : workspace.Means method params notice) :
    workspace.notified? method params = some (notice.perform workspace) := by
  cases h with
  | opening named held absent =>
    subst named
    exact congrArg some (takeOpening_of_held held absent)
  | edit named held found newer replayed =>
    subst named
    exact congrArg some (takeEdit_of_held held found newer replayed)
  | closing named held found =>
    subst named
    exact congrArg some (takeClosing_of_held held)
  | settings named read given =>
    subst named
    exact congrArg some (reconfigure_of_given read given)

/-- A notification that means no change makes none. -/
theorem eq_of_notified?_of_not_means {next : Workspace}
    (h : ∀ notice, ¬workspace.Means method params notice)
    (taken : workspace.notified? method params = some next) : next = workspace := by
  unfold notified? at taken
  split at taken
  · cases taken
    apply takeOpening_eq_self
    intro opening held absent
    exact h _ (.opening rfl held absent)
  · cases taken
    apply takeEdit_eq_self
    intro edit document text held found newer replayed
    exact h (.put edit.uri ⟨edit.version, ⟨text⟩⟩) (.edit rfl held found newer replayed)
  · cases taken
    apply takeClosing_eq_self
    intro uri held
    cases found : workspace.store.document? uri with
    | none => rfl
    | some document => exact absurd (.closing rfl held found) (h _)
  · cases taken
    apply reconfigure_eq_self
    intro settings read
    by_contra given
    exact h _ (.settings rfl read given)
  · cases taken

/-- A notification makes one change or none. -/
theorem eq_or_eq_perform_of_notified? {next : Workspace}
    (taken : workspace.notified? method params = some next) :
    next = workspace ∨ ∃ notice : Notice, next = notice.perform workspace := by
  by_cases means : ∃ notice, workspace.Means method params notice
  · obtain ⟨notice, means⟩ := means
    obtain ⟨⟩ := taken.symm.trans (notified?_of_means means)
    exact .inr ⟨notice, rfl⟩
  · exact .inl (eq_of_notified?_of_not_means (not_exists.mp means) taken)

/-! ## What is published about it -/

theorem publication_of_open {uri : String} {document : Document}
    (found : workspace.store.document? uri = some document) :
    workspace.publication uri = document.publication uri workspace.config := by
  unfold Workspace.publication
  rw [found]
  rfl

/-- A change keeps the documents in the order of their uris. -/
theorem ascending_perform (ascending : Table.Ascending workspace.store.documents)
    (notice : Notice) : Table.Ascending (notice.perform workspace).store.documents := by
  cases notice with
  | put uri document =>
    rw [Notice.perform, Store.documents_put]
    exact ascending.insert uri document
  | close uri =>
    show Table.Ascending (workspace.store.close uri).documents
    cases found : workspace.store.document? uri with
    | none => rwa [Store.close_of_closed found]
    | some document =>
      rw [Store.close_of_open found, Store.documents_schedule]
      exact ascending.erase uri
  | configure config =>
    show Table.Ascending workspace.store.scheduleAll.documents
    rwa [Store.documents_scheduleAll]

theorem publish_of_pending {uris : List String} (waits : workspace.store.pending = uris) :
    workspace.publish.1 = uris.map workspace.publication := by
  rw [← waits]
  rfl

/-- With nothing waiting before, a change queues what it calls for and no more. -/
theorem publish_perform (idle : workspace.store.pending = [])
    (ascending : Table.Ascending workspace.store.documents) {notice : Notice}
    (means : workspace.Means method params notice) :
    (notice.perform workspace).publish.1 =
      notice.publications workspace.store.documents (notice.perform workspace).config := by
  have put (uri : String) (document : Document) :
      ((Notice.put uri document).perform workspace).publish.1 =
        [document.publication uri workspace.config] := by
    have found : (workspace.store.put uri document).document? uri = some document := by
      rw [Store.document?_put, if_pos rfl]
    rw [publish_of_pending (Store.pending_put_of_idle idle uri document), List.map_singleton,
      publication_of_open found]
    rfl
  cases means with
  | opening => exact put _ _
  | edit => exact put _ _
  | @closing uri document _ _ found =>
    have closed : (workspace.store.close uri).document? uri = none := by
      rw [Store.document?_close, if_pos rfl]
    rw [publish_of_pending (Store.pending_close_of_idle idle found), List.map_singleton,
      publication_of_closed closed]
    rfl
  | @settings settings =>
    have waits := Store.pending_scheduleAll_of_idle idle ascending.nodup_keys
    rw [publish_of_pending waits, Table.keys, List.map_map]
    refine List.map_congr_left fun entry member => publication_of_open ?_
    exact (Store.document?_scheduleAll _ _).trans (ascending.mem_iff.mp member)

end Workspace

end LanguageServer
