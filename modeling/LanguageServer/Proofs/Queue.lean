import Mathlib.Data.List.Induction
import LanguageServer.Proofs.Independence
import LanguageServer.Proofs.Table
/-!
# What waits in the queue

The queue holds the first occurrences of all that was written down since it was last emptied
(`drained_firsts`): an operation that touches a document writes down its uri, and queueing
everything writes down the open uris in the order of their bytes. In which order the open uris are
listed before they are sorted makes no difference (`Drains`).
-/

namespace LanguageServer

/-! ## First occurrences -/

theorem eraseDups_concat (uris : List String) (uri : String) :
    (uris ++ [uri]).eraseDups =
      if uri ∈ uris then uris.eraseDups else uris.eraseDups ++ [uri] := by
  rw [List.eraseDups_append, List.removeAll]
  by_cases before : uri ∈ uris
  · rw [if_pos before, List.filter_cons_of_neg (by simp [before]), List.filter_nil]
    exact List.append_nil _
  · rw [if_neg before, List.filter_cons_of_pos (by simp [before]), List.filter_nil]
    rfl

theorem nodup_eraseDups (uris : List String) : uris.eraseDups.Nodup := by
  induction uris using List.reverseRecOn with
  | nil => exact List.nodup_nil
  | append_singleton front uri ih =>
    rw [eraseDups_concat]
    split
    · exact ih
    · rename_i fresh
      have absent : uri ∉ front.eraseDups := mt List.mem_eraseDups.mp fresh
      exact List.nodup_append.mpr ⟨ih, by simp, by grind⟩

/-! ## The order of bytes -/

def bytesLt (a b : String) : Prop := Utf8.encode a.toList < Utf8.encode b.toList

/-- Whether the bytes of the first string do not come after those of the second. -/
def bytesLe (a b : String) : Bool := decide (Utf8.encode a.toList ≤ Utf8.encode b.toList)

theorem bytesLe_of_bytesLt {a b : String} (h : bytesLt a b) : bytesLe a b = true :=
  decide_eq_true (List.le_of_lt h)

theorem eq_of_bytesLe {a b : String} (h : bytesLe a b = true) (back : bytesLe b a = true) :
    a = b := by
  have same := List.le_antisymm (of_decide_eq_true h) (of_decide_eq_true back)
  have decoded := congrArg Utf8.decode? same
  rw [Utf8.decode?_encode, Utf8.decode?_encode] at decoded
  exact String.toList_inj.mp (Option.some.inj decoded)

theorem pairwise_mergeSort_bytesLe (uris : List String) :
    (uris.mergeSort bytesLe).Pairwise fun a b => bytesLe a b = true := by
  refine List.pairwise_mergeSort ?_ ?_ uris
  · intro a b c first second
    exact decide_eq_true (List.le_trans (of_decide_eq_true first) (of_decide_eq_true second))
  · intro a b
    simpa [bytesLe] using List.le_total (Utf8.encode a.toList) (Utf8.encode b.toList)

namespace Table

variable {α : Type} {table : Table α} {listed : List String}

theorem Ascending.keys_bytesLt (h : Ascending table) : (keys table).Pairwise bytesLt :=
  List.pairwise_map.mpr h.bytes_lt

/-- However the keys of an ascending table are listed, sorting by their bytes puts them in the order
that they have in the table. -/
theorem Ascending.mergeSort_eq_keys (h : Ascending table) (nodup : listed.Nodup)
    (complete : ∀ key, key ∈ listed ↔ ∃ value, lookup key table = some value) :
    listed.mergeSort bytesLe = keys table := by
  have same : listed.Perm (keys table) :=
    (List.perm_ext_iff_of_nodup nodup h.nodup_keys).mpr fun key =>
      (complete key).trans mem_keys.symm
  exact ((List.mergeSort_perm listed bytesLe).trans same).eq_of_pairwise
    (fun _ _ _ _ => eq_of_bytesLe) (pairwise_mergeSort_bytesLe listed)
    (h.keys_bytesLt.imp bytesLe_of_bytesLt)

/-- Only one list holds the keys of an ascending table in the order of their bytes. -/
theorem Ascending.eq_keys (h : Ascending table) (ascending : listed.Pairwise bytesLt)
    (complete : ∀ key, key ∈ listed ↔ ∃ value, lookup key table = some value) :
    listed = keys table := by
  have nodup : listed.Nodup := by
    refine ascending.imp ?_
    rintro a _ less rfl
    exact List.lt_irrefl _ less
  have sorted : listed.mergeSort bytesLe = listed :=
    List.mergeSort_of_pairwise (ascending.imp bytesLe_of_bytesLt)
  exact sorted.symm.trans (h.mergeSort_eq_keys nodup complete)

end Table

namespace Store

/-! ## Runs with a queue -/

/-- What can be done to a store. -/
inductive Action
  | call (call : Call)
  | scheduleAll
  | drain

/-- What the drains among some actions return, one after another. A refused call has no effect. -/
def drained (store : Store) : List Action → List (List String)
  | [] => []
  | .call call :: rest => (store.respond call).1.drained rest
  | .scheduleAll :: rest => store.scheduleAll.drained rest
  | .drain :: rest => store.drain.1 :: store.drain.2.drained rest

/-- A list of the open uris, each once, in any order. -/
def Lists (store : Store) (uris : List String) : Prop :=
  uris.Nodup ∧ ∀ uri, uri ∈ uris ↔ ∃ document, store.document? uri = some document

/-- What the drains may return if everything is queued from some list of the open uris, which is
sorted first. -/
inductive Drains : Store → List Action → List (List String) → Prop
  | done {store : Store} : Drains store [] []
  | call {store : Store} {call : Call} {rest : List Action} {answers : List (List String)} :
      Drains (store.respond call).1 rest answers → Drains store (.call call :: rest) answers
  | scheduleAll {store : Store} {listed : List String} {rest : List Action}
      {answers : List (List String)} : store.Lists listed →
      Drains ((listed.mergeSort bytesLe).foldl schedule store) rest answers →
      Drains store (.scheduleAll :: rest) answers
  | drain {store : Store} {rest : List Action} {answers : List (List String)} :
      Drains store.drain.2 rest answers → Drains store (.drain :: rest) (store.drain.1 :: answers)

/-- What a call writes down: its uri, if it is not refused and there is a document that it opens,
edits or closes. -/
inductive Notes (store : Store) : Call → List String → Prop
  | opened {uri : String} {text : Text} {version : Int32} {next : Store} :
      store.openDocument uri text version = .ok next →
      Notes store (.openDocument uri text version) [uri]
  | edited {uri : String} {changes : List Change} {version : Int32} {next : Store} :
      store.edit uri changes version = .ok next → Notes store (.edit uri changes version) [uri]
  | closed {uri : String} {document : Document} :
      store.document? uri = some document → Notes store (.close uri) [uri]
  | unopened {uri : String} : store.document? uri = none → Notes store (.close uri) []
  | refused {call : Call} {error : DocumentError} :
      store.perform call = .error error → Notes store call []

/-- What is written down before each drain and after the one before it; `noted` is what has been
written down already. Queueing everything writes down the open uris in the order of their bytes. -/
inductive Ledger : Store → List String → List Action → List (List String) → Prop
  | done {store : Store} {noted : List String} : Ledger store noted [] []
  | call {store : Store} {noted uris : List String} {call : Call} {rest : List Action}
      {lists : List (List String)} : store.Notes call uris →
      Ledger (store.respond call).1 (noted ++ uris) rest lists →
      Ledger store noted (.call call :: rest) lists
  | scheduleAll {store : Store} {noted uris : List String} {rest : List Action}
      {lists : List (List String)} : uris.Pairwise bytesLt →
      (∀ uri, uri ∈ uris ↔ ∃ document, store.document? uri = some document) →
      Ledger store.scheduleAll (noted ++ uris) rest lists →
      Ledger store noted (.scheduleAll :: rest) lists
  | drain {store : Store} {noted : List String} {rest : List Action}
      {lists : List (List String)} : Ledger store.drain.2 [] rest lists →
      Ledger store noted (.drain :: rest) (noted :: lists)

/-! ## One action -/

/-- What is queued are the first occurrences of what was written down. -/
theorem pending_foldl_schedule_eq {store : Store} {noted : List String}
    (h : store.pending = noted.eraseDups) (uris : List String) :
    (uris.foldl schedule store).pending = (noted ++ uris).eraseDups := by
  induction uris generalizing store noted with
  | nil => rw [List.foldl_nil, List.append_nil, h]
  | cons uri rest ih =>
    have next : (store.schedule uri).pending = (noted ++ [uri]).eraseDups := by
      rw [pending_schedule, eraseDups_concat, h]
      simp only [List.mem_eraseDups]
    rw [List.foldl_cons, ih next, List.append_assoc, List.singleton_append]

theorem exists_notes (store : Store) (call : Call) : ∃ uris, store.Notes call uris := by
  cases performed : store.perform call with
  | error error => exact ⟨[], .refused performed⟩
  | ok next =>
    cases call with
    | openDocument uri text version => exact ⟨[uri], .opened performed⟩
    | edit uri changes version => exact ⟨[uri], .edited performed⟩
    | close uri =>
      cases found : store.document? uri with
      | none => exact ⟨[], .unopened found⟩
      | some document => exact ⟨[uri], .closed found⟩

/-- A call queues what it writes down. -/
theorem pending_respond {store : Store} {call : Call} {uris : List String}
    (notes : store.Notes call uris) :
    (store.respond call).1.pending = (uris.foldl schedule store).pending := by
  cases notes with
  | @opened uri text version next accepted =>
    have performed : store.perform (.openDocument uri text version) = .ok next := accepted
    obtain ⟨-, rfl⟩ := openDocument_eq_ok.mp accepted
    rw [respond_of_ok performed]
    exact (pending_put store uri _).trans (pending_schedule store uri).symm
  | @edited uri changes version next accepted =>
    have performed : store.perform (.edit uri changes version) = .ok next := accepted
    obtain ⟨document, text, -, -, -, rfl⟩ := edit_eq_ok.mp accepted
    rw [respond_of_ok performed]
    exact (pending_put store uri _).trans (pending_schedule store uri).symm
  | @closed uri document found =>
    have performed : store.perform (.close uri) = .ok (store.close uri) := rfl
    rw [respond_of_ok performed, close_of_open found]
    exact (pending_schedule _ uri).trans (pending_schedule store uri).symm
  | @unopened uri absent =>
    have performed : store.perform (.close uri) = .ok (store.close uri) := rfl
    rw [respond_of_ok performed, close_of_closed absent]
    rfl
  | refused failed => rw [respond_of_error failed]; rfl

theorem ascending_respond {store : Store} (ascending : Table.Ascending store.documents)
    (call : Call) : Table.Ascending (store.respond call).1.documents := by
  rw [respond_eq_effect]
  rcases (call.effect (store.document? call.uri)).1 with _ | (_ | document)
  · exact ascending
  · show Table.Ascending (store.assign call.uri none).documents
    rw [assign, documents_schedule]
    exact ascending.erase call.uri
  · show Table.Ascending (store.put call.uri document).documents
    rw [documents_put]
    exact ascending.insert call.uri document

theorem ascending_scheduleAll {store : Store} (ascending : Table.Ascending store.documents) :
    Table.Ascending store.scheduleAll.documents := by
  rwa [documents_scheduleAll]

/-- Queueing everything does not depend on the order in which the open uris are listed. -/
theorem foldl_mergeSort_of_lists {store : Store} (ascending : Table.Ascending store.documents)
    {listed : List String} (lists : store.Lists listed) :
    (listed.mergeSort bytesLe).foldl schedule store = store.scheduleAll := by
  rw [ascending.mergeSort_eq_keys lists.1 lists.2, scheduleAll]

/-! ## Runs -/

theorem exists_ledger {store : Store} (ascending : Table.Ascending store.documents)
    (noted : List String) (actions : List Action) :
    ∃ lists, Ledger store noted actions lists := by
  induction actions generalizing store noted with
  | nil => exact ⟨[], .done⟩
  | cons action rest ih =>
    cases action with
    | call call =>
      obtain ⟨uris, notes⟩ := store.exists_notes call
      obtain ⟨lists, later⟩ := ih (ascending_respond ascending call) (noted ++ uris)
      exact ⟨lists, .call notes later⟩
    | scheduleAll =>
      obtain ⟨lists, later⟩ :=
        ih (ascending_scheduleAll ascending) (noted ++ Table.keys store.documents)
      exact ⟨lists, .scheduleAll ascending.keys_bytesLt (fun _ => Table.mem_keys) later⟩
    | drain =>
      have same : Table.Ascending store.drain.2.documents := ascending
      obtain ⟨lists, later⟩ := ih same []
      exact ⟨noted :: lists, .drain later⟩

/-- Each drain returns the first occurrences of what was written down, if the queue holds those of
what was written down before. -/
theorem drained_of_ledger {store : Store} {noted : List String} {actions : List Action}
    {lists : List (List String)} (ledger : Ledger store noted actions lists)
    (ascending : Table.Ascending store.documents) (h : store.pending = noted.eraseDups) :
    store.drained actions = lists.map List.eraseDups := by
  induction ledger with
  | done => rfl
  | @call store noted uris call rest lists notes _ ih =>
    refine ih (ascending_respond ascending call) ?_
    exact (pending_respond notes).trans (pending_foldl_schedule_eq h uris)
  | @scheduleAll store noted uris rest lists ordered complete _ ih =>
    have all : uris = Table.keys store.documents := ascending.eq_keys ordered complete
    refine ih (ascending_scheduleAll ascending) ?_
    rw [all]
    exact pending_foldl_schedule_eq h _
  | drain _ ih =>
    rw [drained, ih ascending rfl, List.map_cons, ← h]
    rfl

theorem drains_drained {store : Store} (ascending : Table.Ascending store.documents)
    (actions : List Action) : Drains store actions (store.drained actions) := by
  induction actions generalizing store with
  | nil => exact .done
  | cons action rest ih =>
    cases action with
    | call call => exact .call (ih (ascending_respond ascending call))
    | scheduleAll =>
      have lists : store.Lists (Table.keys store.documents) :=
        ⟨ascending.nodup_keys, fun _ => Table.mem_keys⟩
      refine .scheduleAll lists ?_
      rw [foldl_mergeSort_of_lists ascending lists]
      exact ih (ascending_scheduleAll ascending)
    | drain =>
      have same : Table.Ascending store.drain.2.documents := ascending
      exact .drain (ih same)

theorem eq_drained_of_drains {store : Store} {actions : List Action}
    {answers : List (List String)} (drains : Drains store actions answers)
    (ascending : Table.Ascending store.documents) : answers = store.drained actions := by
  induction drains with
  | done => rfl
  | @call store call rest answers _ ih => exact ih (ascending_respond ascending call)
  | scheduleAll lists _ ih =>
    rw [foldl_mergeSort_of_lists ascending lists] at ih
    exact ih (ascending_scheduleAll ascending)
  | @drain store rest answers _ ih => exact congrArg (store.drain.1 :: ·) (ih ascending)

/-- Each drain returns the uris that were written down since the drain before it, each at its first
occurrence only: the uri of every opening and edit that was not refused and of every closing of an
open document, and all open uris in the order of their bytes wherever everything was queued. It
returns no uri twice, and the same uris in whichever order the open ones are listed before they are
sorted. -/
theorem drained_firsts (actions : List Action) :
    (∃ lists, Ledger empty [] actions lists) ∧
    (∀ lists, Ledger empty [] actions lists →
      empty.drained actions = lists.map List.eraseDups) ∧
    (∀ uris ∈ empty.drained actions, uris.Nodup) ∧
    ∀ answers, Drains empty actions answers ↔ answers = empty.drained actions := by
  have ascending : Table.Ascending empty.documents := List.Pairwise.nil
  have firsts : ∀ lists, Ledger empty [] actions lists →
      empty.drained actions = lists.map List.eraseDups :=
    fun lists ledger => drained_of_ledger ledger ascending rfl
  obtain ⟨lists, ledger⟩ := exists_ledger ascending [] actions
  refine ⟨⟨lists, ledger⟩, firsts, ?_, fun answers => ⟨?_, ?_⟩⟩
  · intro uris member
    rw [firsts lists ledger] at member
    obtain ⟨noted, -, rfl⟩ := List.mem_map.mp member
    exact nodup_eraseDups noted
  · exact fun drains => eq_drained_of_drains drains ascending
  · rintro rfl
    exact drains_drained ascending actions

/-- A uri that is closed and opened again keeps the place it had. -/
example :
    empty.drained [.call (.openDocument "b" ⟨[]⟩ 1), .call (.close "b"), .call (.close "c"),
      .call (.openDocument "a" ⟨[]⟩ 1), .call (.edit "a" [] 1), .call (.openDocument "b" ⟨[]⟩ 1),
      .scheduleAll, .drain, .drain] = [["b", "a"], []] := by decide

end Store

end LanguageServer
