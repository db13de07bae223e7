import LanguageServer.Proofs.Store
import LanguageServer.Workspace
/-!
# Freshness of publications

What was last published for a uri is what holds of it now, for every uri that does not wait in the
queue (`publications_fresh`). `Log.Valid` is the invariant that carries this over every call.
-/

namespace LanguageServer.Workspace

/-- The last publication for a uri, if there is one. -/
def last? (uri : String) (publications : List Publication) : Option Publication :=
  (publications.filter fun publication => publication.uri = uri).getLast?

/-- What can be done to a workspace. -/
inductive Call
  | openDocument (uri : String) (text : Text) (version : Int32)
  | edit (uri : String) (changes : List Change) (version : Int32)
  | close (uri : String)
  | configure (config : Config)
  | publish

/-- What a call answers. -/
inductive Reply
  | done
  | refused (error : DocumentError)
  | published (count : Nat)
  deriving DecidableEq

structure Effect where
  workspace : Workspace
  published : List Publication
  reply : Reply

/-- The effect of a call that only changes the workspace, or is refused and changes nothing. -/
def attempt (workspace : Workspace) : Except DocumentError Workspace → Effect
  | .ok next => ⟨next, [], .done⟩
  | .error error => ⟨workspace, [], .refused error⟩

def perform (workspace : Workspace) : Call → Effect
  | .openDocument uri text version => workspace.attempt (workspace.openDocument uri text version)
  | .edit uri changes version => workspace.attempt (workspace.edit uri changes version)
  | .close uri => ⟨workspace.close uri, [], .done⟩
  | .configure config => ⟨workspace.configure config, [], .done⟩
  | .publish => ⟨workspace.publish.2, workspace.publish.1, .published workspace.publishCount⟩

/-- A workspace with its past. -/
structure Log where
  workspace : Workspace
  /-- All that was published, the first publication first. -/
  published : List Publication
  /-- The uris that were opened by some call that was not refused. -/
  opened : List String

/-- The uri that a call opens, going by its reply. -/
def Call.opens? : Call → Reply → Option String
  | .openDocument uri _ _, .done => some uri
  | _, _ => none

namespace Log

def new (config : Config) (classify : Classifier) : Log := ⟨.new config classify, [], []⟩

def next (log : Log) (call : Call) : Log :=
  let effect := log.workspace.perform call
  { workspace := effect.workspace
    published := log.published ++ effect.published
    opened := log.opened ++ (call.opens? effect.reply).toList }

def run (log : Log) (calls : List Call) : Log := calls.foldl next log

/-- What was last published for a uri is what holds of it now. -/
def UpToDate (log : Log) (uri : String) : Prop :=
  match log.workspace.store.document? uri with
  | some document =>
    last? uri log.published = some ⟨uri, some document.version,
      if log.workspace.config.diagnostics then Diagnostic.scan document.text else []⟩
  | none => uri ∈ log.opened → last? uri log.published = some ⟨uri, none, []⟩

structure Valid (log : Log) : Prop where
  fresh : ∀ uri ∈ log.opened, uri ∉ log.workspace.store.pending →
    last? uri log.published = some (log.workspace.publication uri)
  open_opened : ∀ uri document,
    log.workspace.store.document? uri = some document → uri ∈ log.opened
  pending_opened : ∀ uri ∈ log.workspace.store.pending, uri ∈ log.opened
  published_opened : ∀ publication ∈ log.published, publication.uri ∈ log.opened
  nodup : log.workspace.store.pending.Nodup

end Log

/-! ## What the operations do to a workspace -/

/-- An accepted opening sets the document of a uri that is not open. -/
theorem eq_put_of_openDocument {workspace next : Workspace} {uri : String} {text : Text}
    {version : Int32} (h : workspace.openDocument uri text version = .ok next) :
    workspace.store.document? uri = none ∧
      next = { workspace with store := workspace.store.put uri ⟨version, text⟩ } := by
  obtain ⟨store, accepted, ⟨⟩⟩ := bind_eq_ok.mp h
  obtain ⟨absent, rfl⟩ := Store.openDocument_eq_ok.mp accepted
  exact ⟨absent, rfl⟩

/-- An accepted edit sets the document of a uri that is open. -/
theorem eq_put_of_edit {workspace next : Workspace} {uri : String} {changes : List Change}
    {version : Int32} (h : workspace.edit uri changes version = .ok next) :
    ∃ document text, workspace.store.document? uri = some document ∧
      next = { workspace with store := workspace.store.put uri ⟨version, text⟩ } := by
  obtain ⟨store, accepted, ⟨⟩⟩ := bind_eq_ok.mp h
  obtain ⟨document, text, found, _, _, rfl⟩ := Store.edit_eq_ok.mp accepted
  exact ⟨document, text, found, rfl⟩

theorem uri_publication (workspace : Workspace) (uri : String) :
    (workspace.publication uri).uri = uri := by
  unfold publication
  split <;> rfl

/-- What there is to publish for a uri depends on its document and the settings only. -/
theorem publication_congr {workspace other : Workspace} {uri : String}
    (document : other.store.document? uri = workspace.store.document? uri)
    (config : other.config = workspace.config) :
    other.publication uri = workspace.publication uri := by
  unfold publication diagnose
  rw [document, config]

/-- Where no document is open, the settings do not matter. -/
theorem publication_of_closed {workspace : Workspace} {uri : String}
    (closed : workspace.store.document? uri = none) :
    workspace.publication uri = ⟨uri, none, []⟩ := by
  unfold publication
  rw [closed]

/-! ## The last publication -/

theorem last?_append_of_mem {uri : String} {uris : List String} (workspace : Workspace)
    (published : List Publication) (h : uri ∈ uris) :
    last? uri (published ++ uris.map workspace.publication) =
      some (workspace.publication uri) := by
  have same : ∀ publication ∈ (uris.map workspace.publication).filter (·.uri = uri),
      publication = workspace.publication uri := by
    intro publication member
    obtain ⟨made, named⟩ := List.mem_filter.mp member
    obtain ⟨other, _, rfl⟩ := List.mem_map.mp made
    rw [decide_eq_true_eq, uri_publication] at named
    rw [named]
  have found : workspace.publication uri ∈
      (uris.map workspace.publication).filter (·.uri = uri) := by
    refine List.mem_filter.mpr ⟨List.mem_map_of_mem h, ?_⟩
    simp [uri_publication]
  have nonempty := List.ne_nil_of_mem found
  rw [last?, List.filter_append, List.getLast?_append, List.getLast?_eq_some_getLast nonempty]
  exact congrArg some (same _ (List.getLast_mem nonempty))

theorem last?_append_of_notMem {uri : String} {uris : List String} (workspace : Workspace)
    (published : List Publication) (h : uri ∉ uris) :
    last? uri (published ++ uris.map workspace.publication) = last? uri published := by
  have others : (uris.map workspace.publication).filter (·.uri = uri) = [] := by
    apply List.filter_eq_nil_iff.mpr
    intro publication made named
    obtain ⟨other, member, rfl⟩ := List.mem_map.mp made
    rw [decide_eq_true_eq, uri_publication] at named
    exact h (named ▸ member)
  rw [last?, List.filter_append, others, List.append_nil, last?]

/-! ## The invariant -/

namespace Log

/-- A step that publishes nothing keeps the invariant if it queues every uri for which there is
now something else to publish. -/
theorem Valid.silent {log : Log} (valid : log.Valid) {workspace : Workspace}
    {opened : List String} (keeps : ∀ uri ∈ log.opened, uri ∈ opened)
    (queues : ∀ uri, uri ∉ workspace.store.pending →
      uri ∉ log.workspace.store.pending ∧
        workspace.publication uri = log.workspace.publication uri)
    (new : ∀ uri ∈ opened, uri ∈ log.opened ∨ uri ∈ workspace.store.pending)
    (open_opened : ∀ uri document,
      workspace.store.document? uri = some document → uri ∈ opened)
    (pending_opened : ∀ uri ∈ workspace.store.pending, uri ∈ opened)
    (nodup : workspace.store.pending.Nodup) :
    Valid ⟨workspace, log.published, opened⟩ := by
  refine ⟨?_, open_opened, pending_opened, ?_, nodup⟩
  · intro uri member idle
    obtain ⟨wasIdle, same⟩ := queues uri idle
    have before := (new uri member).resolve_right idle
    rw [same]
    exact valid.fresh uri before wasIdle
  · intro publication member
    exact keeps _ (valid.published_opened publication member)

/-- Setting the document of a uri keeps the invariant if the uri counts as opened. -/
theorem Valid.put {log : Log} (valid : log.Valid) {uri : String} {document : Document}
    {opened : List String} (keeps : ∀ key ∈ log.opened, key ∈ opened)
    (new : ∀ key ∈ opened, key ∈ log.opened ∨ key = uri) (counts : uri ∈ opened) :
    Valid ⟨{ log.workspace with store := log.workspace.store.put uri document },
      log.published, opened⟩ := by
  refine valid.silent keeps ?_ ?_ ?_ ?_ (Store.nodup_put valid.nodup uri document)
  · intro key idle
    have idle := mt Store.mem_pending_put.mpr idle
    rw [not_or] at idle
    refine ⟨idle.1, publication_congr ?_ rfl⟩
    rw [Store.document?_put, if_neg idle.2]
  · intro key member
    exact (new key member).imp_right fun same => Store.mem_pending_put.mpr (.inr same)
  · intro key found h
    rw [Store.document?_put] at h
    split at h
    · rename_i same
      exact same ▸ counts
    · exact keeps key (valid.open_opened key found h)
  · intro key member
    rcases Store.mem_pending_put.mp member with old | rfl
    · exact keeps key (valid.pending_opened key old)
    · exact counts

theorem Valid.close {log : Log} (valid : log.Valid) (uri : String) :
    Valid ⟨log.workspace.close uri, log.published, log.opened⟩ := by
  refine valid.silent (fun _ => id) ?_ (fun _ => .inl) ?_ ?_
    (Store.nodup_close valid.nodup uri)
  · intro key idle
    have idle := mt Store.mem_pending_close.mpr idle
    rw [not_or] at idle
    refine ⟨idle.1, publication_congr ?_ rfl⟩
    refine (Store.document?_close log.workspace.store uri key).trans ?_
    split
    · rename_i same
      subst same
      cases found : log.workspace.store.document? key with
      | none => rfl
      | some document => exact absurd ⟨rfl, document, found⟩ idle.2
    · rfl
  · intro key document h
    have h := (Store.document?_close log.workspace.store uri key).symm.trans h
    split at h
    · cases h
    · exact valid.open_opened key document h
  · intro key member
    rcases Store.mem_pending_close.mp member with old | ⟨rfl, document, found⟩
    · exact valid.pending_opened key old
    · exact valid.open_opened key document found

theorem Valid.configure {log : Log} (valid : log.Valid) (config : Config) :
    Valid ⟨log.workspace.configure config, log.published, log.opened⟩ := by
  refine valid.silent (fun _ => id) ?_ (fun _ => .inl) ?_ ?_
    (Store.nodup_foldl_schedule valid.nodup _)
  · intro key idle
    have idle := mt Store.mem_pending_scheduleAll.mpr idle
    rw [not_or] at idle
    have closed : log.workspace.store.document? key = none :=
      Option.eq_none_iff_forall_ne_some.mpr fun document found => idle.2 ⟨document, found⟩
    have stays : (log.workspace.configure config).store.document? key = none :=
      (Store.document?_scheduleAll log.workspace.store key).trans closed
    rw [publication_of_closed closed, publication_of_closed stays]
    exact ⟨idle.1, rfl⟩
  · intro key document h
    rw [Workspace.configure, Store.document?_scheduleAll] at h
    exact valid.open_opened key document h
  · intro key member
    rcases Store.mem_pending_scheduleAll.mp member with old | ⟨document, found⟩
    · exact valid.pending_opened key old
    · exact valid.open_opened key document found

/-- Publishing empties the queue, so that nothing has to wait for it any more. -/
theorem Valid.publish {log : Log} (valid : log.Valid) :
    Valid ⟨log.workspace.publish.2, log.published ++ log.workspace.publish.1, log.opened⟩ := by
  refine ⟨?_, valid.open_opened, by simp [Workspace.publish, Store.drain], ?_, List.nodup_nil⟩
  · intro uri member _
    have same : log.workspace.publish.2.publication uri = log.workspace.publication uri :=
      publication_congr rfl rfl
    rw [same]
    by_cases waits : uri ∈ log.workspace.store.pending
    · exact last?_append_of_mem log.workspace log.published waits
    · exact (last?_append_of_notMem log.workspace log.published waits).trans
        (valid.fresh uri member waits)
  · intro publication member
    rcases List.mem_append.mp member with old | made
    · exact valid.published_opened publication old
    · obtain ⟨uri, waits, rfl⟩ := List.mem_map.mp made
      rw [uri_publication]
      exact valid.pending_opened uri waits

theorem valid_new (config : Config) (classify : Classifier) : (new config classify).Valid := by
  refine ⟨?_, ?_, ?_, ?_, List.nodup_nil⟩
  · intro uri member
    cases member
  · intro uri document h
    cases h
  · intro uri member
    cases member
  · intro publication member
    cases member

/-- A refused call adds nothing to the past. -/
theorem valid_attempt {log : Log} (valid : log.Valid) {outcome : Except DocumentError Workspace}
    {call : Call} (refused : ∀ error, call.opens? (.refused error) = none)
    (accepted : ∀ next, outcome = .ok next →
      Valid ⟨next, log.published, log.opened ++ (call.opens? .done).toList⟩)
    (performed : log.workspace.perform call = log.workspace.attempt outcome) :
    (log.next call).Valid := by
  unfold Log.next
  rw [performed]
  cases outcome with
  | ok next => simpa [attempt] using accepted next rfl
  | error error => simpa [attempt, refused] using valid

/-- Every call keeps the invariant. -/
theorem Valid.next {log : Log} (valid : log.Valid) (call : Call) : (log.next call).Valid := by
  cases call with
  | openDocument uri text version =>
    refine valid_attempt valid (fun _ => rfl) ?_ rfl
    intro next accepted
    obtain ⟨_, rfl⟩ := eq_put_of_openDocument accepted
    refine valid.put (fun key member => List.mem_append_left _ member) ?_ (by simp [Call.opens?])
    intro key member
    simpa [Call.opens?] using member
  | edit uri changes version =>
    refine valid_attempt valid (fun _ => rfl) ?_ rfl
    intro next accepted
    obtain ⟨document, text, found, rfl⟩ := eq_put_of_edit accepted
    have counts := valid.open_opened uri document found
    simpa [Call.opens?] using valid.put (fun _ => id) (fun _ => .inl) counts
  | close uri => simpa [Log.next, perform, Call.opens?] using valid.close uri
  | configure config => simpa [Log.next, perform, Call.opens?] using valid.configure config
  | publish => simpa [Log.next, perform, Call.opens?] using valid.publish

theorem Valid.run {log : Log} (valid : log.Valid) (calls : List Call) : (log.run calls).Valid := by
  induction calls generalizing log with
  | nil => exact valid
  | cons call rest ih => exact ih (valid.next call)

theorem Valid.upToDate {log : Log} (valid : log.Valid) {uri : String}
    (idle : uri ∉ log.workspace.store.pending) : log.UpToDate uri := by
  have fresh := fun member => valid.fresh uri member idle
  unfold UpToDate
  unfold publication diagnose at fresh
  cases found : log.workspace.store.document? uri with
  | none => simpa only [found] using fresh
  | some document =>
    simpa only [found] using fresh (valid.open_opened uri document found)

end Log

/-- After any calls under any settings, every uri that does not wait in the queue is up to date,
and after publishing every uri is. What was never opened was never published. Publishing once
publishes for each uri at most once, and answers how often it did. -/
theorem publications_fresh (config : Config) (classify : Classifier) (calls : List Call) :
    let log := (Log.new config classify).run calls
    let effect := log.workspace.perform .publish
    (∀ uri, uri ∉ log.workspace.store.pending → log.UpToDate uri) ∧
    (∀ uri, (log.next .publish).UpToDate uri) ∧
    (∀ publication ∈ log.published, publication.uri ∈ log.opened) ∧
    (effect.published.map Publication.uri).Nodup ∧
    effect.reply = .published effect.published.length := by
  intro log effect
  have valid : log.Valid := (Log.valid_new config classify).run calls
  refine ⟨fun uri idle => valid.upToDate idle, ?_, valid.published_opened, ?_, ?_⟩
  · intro uri
    exact (valid.next .publish).upToDate List.not_mem_nil
  · have uris : effect.published.map Publication.uri = log.workspace.store.pending := by
      simp [effect, perform, publish, Store.drain, Function.comp_def, uri_publication]
    rw [uris]
    exact valid.nodup
  · simp [effect, perform, publish, publishCount, Store.drain]

end LanguageServer.Workspace
