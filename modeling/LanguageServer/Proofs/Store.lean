import LanguageServer.Proofs.Document
import LanguageServer.Store
/-!
# Operations on the open documents

What each operation does to the documents and to the queue, said once for all later proofs:

* `openDocument_eq_ok`, `edit_eq_ok`: when an operation is accepted, and what it leaves;
* `document?_close`, `mem_pending_close`: closing, which is never refused;
* `mem_pending_scheduleAll`: queueing every open uri;
* `Call`, `run`: the operations on documents one after another, a refused one without effect.
-/

namespace LanguageServer

theorem Table.mem_keys {α : Type} {key : String} {table : Table α} :
    key ∈ keys table ↔ ∃ value, lookup key table = some value := by
  induction table with
  | nil => simp [keys]
  | cons entry rest ih =>
    obtain ⟨k, v⟩ := entry
    simp only [keys, List.map_cons, List.mem_cons] at ih ⊢
    rw [ih, lookup_cons]
    by_cases same : key = k
    · simp [same]
    · simp [same]

/-- Erasing a key that is not there changes nothing. -/
theorem Table.erase_of_lookup_eq_none {α : Type} {key : String} {table : Table α}
    (absent : lookup key table = none) : erase key table = table := by
  refine List.filter_eq_self.mpr fun entry member => decide_eq_true ?_
  rintro rfl
  obtain ⟨value, found⟩ := Table.mem_keys.mp (List.mem_map_of_mem member)
  cases absent.symm.trans found

namespace Store

/-! ## The queue -/

@[simp] theorem documents_schedule (store : Store) (uri : String) :
    (store.schedule uri).documents = store.documents := by
  unfold schedule
  split <;> rfl

@[simp] theorem document?_schedule (store : Store) (uri key : String) :
    (store.schedule uri).document? key = store.document? key := by
  simp [document?]

theorem mem_pending_schedule {store : Store} {uri key : String} :
    key ∈ (store.schedule uri).pending ↔ key ∈ store.pending ∨ key = uri := by
  unfold schedule
  split
  · constructor
    · exact Or.inl
    · rintro (waits | rfl) <;> assumption
  · simp

theorem nodup_schedule {store : Store} (nodup : store.pending.Nodup) (uri : String) :
    (store.schedule uri).pending.Nodup := by
  unfold schedule
  split
  · exact nodup
  · rename_i absent
    exact List.nodup_append.mpr ⟨nodup, by simp, by grind⟩

theorem document?_foldl_schedule (store : Store) (uris : List String) (key : String) :
    (uris.foldl schedule store).document? key = store.document? key := by
  induction uris generalizing store with
  | nil => rfl
  | cons uri rest ih => rw [List.foldl_cons, ih, document?_schedule]

theorem mem_pending_foldl_schedule {store : Store} {uris : List String} {key : String} :
    key ∈ (uris.foldl schedule store).pending ↔ key ∈ store.pending ∨ key ∈ uris := by
  induction uris generalizing store with
  | nil => simp
  | cons uri rest ih =>
    rw [List.foldl_cons, ih, mem_pending_schedule, List.mem_cons, or_assoc]

theorem nodup_foldl_schedule {store : Store} (nodup : store.pending.Nodup) (uris : List String) :
    (uris.foldl schedule store).pending.Nodup := by
  induction uris generalizing store with
  | nil => exact nodup
  | cons uri rest ih => exact ih (nodup_schedule nodup uri)

theorem documents_foldl_schedule (store : Store) (uris : List String) :
    (uris.foldl schedule store).documents = store.documents := by
  induction uris generalizing store with
  | nil => rfl
  | cons uri rest ih => rw [List.foldl_cons, ih, documents_schedule]

theorem pending_schedule_of_notMem {store : Store} {uri : String} (h : uri ∉ store.pending) :
    (store.schedule uri).pending = store.pending ++ [uri] := by
  rw [schedule, if_neg h]

/-- Different uris that do not wait yet are queued in their order. -/
theorem pending_foldl_schedule {store : Store} {uris : List String} (nodup : uris.Nodup)
    (h : ∀ uri ∈ uris, uri ∉ store.pending) :
    (uris.foldl schedule store).pending = store.pending ++ uris := by
  induction uris generalizing store with
  | nil => exact (List.append_nil _).symm
  | cons uri rest ih =>
    obtain ⟨fresh, others⟩ := List.nodup_cons.mp nodup
    have first := pending_schedule_of_notMem (h uri List.mem_cons_self)
    have absent : ∀ other ∈ rest, other ∉ (store.schedule uri).pending := by
      intro other member waits
      rcases mem_pending_schedule.mp waits with before | rfl
      · exact h other (List.mem_cons_of_mem _ member) before
      · exact fresh member
    rw [List.foldl_cons, ih others absent, first, List.append_assoc, List.singleton_append]

@[simp] theorem documents_scheduleAll (store : Store) :
    store.scheduleAll.documents = store.documents :=
  documents_foldl_schedule store _

theorem document?_scheduleAll (store : Store) (key : String) :
    store.scheduleAll.document? key = store.document? key :=
  document?_foldl_schedule store _ key

/-- Queueing everything queues the open uris and no other. -/
theorem mem_pending_scheduleAll {store : Store} {key : String} :
    key ∈ store.scheduleAll.pending ↔
      key ∈ store.pending ∨ ∃ document, store.document? key = some document := by
  unfold scheduleAll
  rw [mem_pending_foldl_schedule, Table.mem_keys]
  rfl

/-! ## Documents -/

@[simp] theorem documents_put (store : Store) (uri : String) (document : Document) :
    (store.put uri document).documents = Table.insert uri document store.documents :=
  documents_schedule _ uri

theorem document?_put (store : Store) (uri key : String) (document : Document) :
    (store.put uri document).document? key =
      if key = uri then some document else store.document? key := by
  simp [put, document?, Table.lookup_insert]

theorem mem_pending_put {store : Store} {uri key : String} {document : Document} :
    key ∈ (store.put uri document).pending ↔ key ∈ store.pending ∨ key = uri :=
  mem_pending_schedule

theorem document_eq_ok {store : Store} {uri : String} {document : Document} :
    store.document uri = .ok document ↔ store.document? uri = some document := by
  unfold Store.document
  cases store.document? uri with
  | none => simp
  | some found => simp

/-- A uri is opened unless it is open. -/
theorem openDocument_eq_ok {store next : Store} {uri : String} {text : Text} {version : Int32} :
    store.openDocument uri text version = .ok next ↔
      store.document? uri = none ∧ next = store.put uri ⟨version, text⟩ := by
  unfold openDocument
  cases store.document? uri with
  | none => simp [eq_comm]
  | some document => simp

/-- An edit is accepted if the uri is open, the version newer and every change possible. -/
theorem edit_eq_ok {store next : Store} {uri : String} {changes : List Change} {version : Int32} :
    store.edit uri changes version = .ok next ↔
      ∃ document text, store.document? uri = some document ∧ document.version < version ∧
        document.text.applyAll changes = .ok text ∧ next = store.put uri ⟨version, text⟩ := by
  unfold edit
  rw [bind_eq_ok]
  constructor
  · rintro ⟨document, found, accepted⟩
    split at accepted
    · cases accepted
    · rename_i newer
      obtain ⟨text, applied, stored⟩ := bind_eq_ok.mp accepted
      cases stored
      exact ⟨document, text, document_eq_ok.mp found, Int32.not_le.mp newer, applied, rfl⟩
  · rintro ⟨document, text, found, newer, applied, rfl⟩
    refine ⟨document, document_eq_ok.mpr found, ?_⟩
    rw [if_neg (Int32.not_le.mpr newer)]
    exact bind_eq_ok.mpr ⟨text, applied, rfl⟩

theorem edit_of_closed {store : Store} {uri : String} (absent : store.document? uri = none)
    (changes : List Change) (version : Int32) :
    store.edit uri changes version = .error (.unknown uri) := by
  unfold edit Store.document
  rw [absent]
  rfl

theorem edit_of_open {store : Store} {uri : String} {document : Document}
    (found : store.document? uri = some document) (changes : List Change) (version : Int32) :
    store.edit uri changes version =
      if version ≤ document.version then .error (.stale uri document.version version)
      else (document.text.applyAll changes).map fun text => store.put uri ⟨version, text⟩ := by
  unfold edit Store.document
  rw [found]
  rfl

theorem document?_close (store : Store) (uri key : String) :
    (store.close uri).document? key = if key = uri then none else store.document? key := by
  unfold close
  cases found : store.document? uri with
  | none =>
    by_cases same : key = uri
    · simp [same, found]
    · simp [same]
  | some document => simp [document?, Table.lookup_erase]

theorem close_of_closed {store : Store} {uri : String} (absent : store.document? uri = none) :
    store.close uri = store := by
  rw [close, absent]

/-- Closing an open document takes its entry out and queues its uri. -/
theorem close_of_open {store : Store} {uri : String} {document : Document}
    (found : store.document? uri = some document) :
    store.close uri =
      Store.schedule { store with documents := Table.erase uri store.documents } uri := by
  rw [close, found]

/-- Closing queues a uri only if it was open. -/
theorem mem_pending_close {store : Store} {uri key : String} :
    key ∈ (store.close uri).pending ↔
      key ∈ store.pending ∨ key = uri ∧ ∃ document, store.document? uri = some document := by
  unfold close
  cases store.document? uri with
  | none => simp
  | some document => simp [mem_pending_schedule]

theorem nodup_close {store : Store} (nodup : store.pending.Nodup) (uri : String) :
    (store.close uri).pending.Nodup := by
  unfold close
  split
  · refine nodup_schedule ?_ uri
    exact nodup
  · exact nodup

theorem nodup_put {store : Store} (nodup : store.pending.Nodup) (uri : String)
    (document : Document) : (store.put uri document).pending.Nodup := by
  refine nodup_schedule ?_ uri
  exact nodup

/-! ## The queue after one operation, if nothing waited before -/

theorem pending_put_of_idle {store : Store} (idle : store.pending = []) (uri : String)
    (document : Document) : (store.put uri document).pending = [uri] := by
  unfold put schedule
  simp [idle]

theorem pending_close_of_idle {store : Store} (idle : store.pending = []) {uri : String}
    {document : Document} (found : store.document? uri = some document) :
    (store.close uri).pending = [uri] := by
  rw [close_of_open found, schedule]
  simp [idle]

theorem pending_scheduleAll_of_idle {store : Store} (idle : store.pending = [])
    (nodup : (Table.keys store.documents).Nodup) :
    store.scheduleAll.pending = Table.keys store.documents := by
  have absent : ∀ uri ∈ Table.keys store.documents, uri ∉ store.pending := by simp [idle]
  have queued := pending_foldl_schedule nodup absent
  rwa [idle] at queued

/-! ## Runs -/

inductive Call
  | openDocument (uri : String) (text : Text) (version : Int32)
  | edit (uri : String) (changes : List Change) (version : Int32)
  | close (uri : String)

def Call.uri : Call → String
  | openDocument uri _ _ | edit uri _ _ | close uri => uri

def perform (store : Store) : Call → Except DocumentError Store
  | .openDocument uri text version => store.openDocument uri text version
  | .edit uri changes version => store.edit uri changes version
  | .close uri => .ok (store.close uri)

/-- The store after calls one after another. -/
def run (store : Store) : List Call → Store
  | [] => store
  | call :: rest =>
    match store.perform call with
    | .ok next => next.run rest
    | .error _ => store.run rest

/-- The calls that are not refused, in order. -/
def accepted (store : Store) : List Call → List Call
  | [] => []
  | call :: rest =>
    match store.perform call with
    | .ok next => call :: next.accepted rest
    | .error _ => store.accepted rest

/-- An accepted call touches the document of its own uri only. -/
theorem document?_perform_of_ne {store next : Store} {call : Call}
    (h : store.perform call = .ok next) {uri : String} (other : call.uri ≠ uri) :
    next.document? uri = store.document? uri := by
  have other := Ne.symm other
  cases call with
  | openDocument key text version =>
    obtain ⟨-, rfl⟩ := openDocument_eq_ok.mp h
    exact (document?_put store key uri _).trans (if_neg other)
  | edit key changes version =>
    obtain ⟨document, text, -, -, -, rfl⟩ := edit_eq_ok.mp h
    exact (document?_put store key uri _).trans (if_neg other)
  | close key =>
    cases h
    exact (document?_close store key uri).trans (if_neg other)

end Store

end LanguageServer
