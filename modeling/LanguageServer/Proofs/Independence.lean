import LanguageServer.Proofs.Acceptance
/-!
# Independent documents

Calls on different uris do not notice one another: in every interleaving of two lists of calls each
call gets the reply, each uri the document and the queue the order that it has where its list runs
alone (`interleaved_calls`). What carries this is that a call reads nothing but the document of its
own uri (`respond_eq_effect`), and that the queue keeps its order on every set of uris (`Agrees`).
-/

namespace LanguageServer

/-- The last list is made of the items of the two others, those of each in their order. -/
inductive Interleaves {α : Type} : List α → List α → List α → Prop
  | nil : Interleaves [] [] []
  | left {item : α} {first second all : List α} :
      Interleaves first second all → Interleaves (item :: first) second (item :: all)
  | right {item : α} {first second all : List α} :
      Interleaves first second all → Interleaves first (item :: second) (item :: all)

theorem Interleaves.symm {α : Type} {first second all : List α}
    (woven : Interleaves first second all) : Interleaves second first all := by
  induction woven with
  | nil => exact .nil
  | left _ ih => exact .right ih
  | right _ ih => exact .left ih

theorem interleaves_filter {α : Type} (p : α → Bool) (all : List α) :
    Interleaves (all.filter p) (all.filter fun item => !p item) all := by
  induction all with
  | nil => exact .nil
  | cons item rest ih =>
    cases holds : p item with
    | true =>
      rw [List.filter_cons_of_pos holds, List.filter_cons_of_neg (by simp [holds])]
      exact .left ih
    | false =>
      rw [List.filter_cons_of_neg (by simp [holds]), List.filter_cons_of_pos (by simp [holds])]
      exact .right ih

namespace Store

/-! ## What one call reads and writes -/

/-- What a call makes of the document of its uri: what it writes there, if it writes at all, and the
reply. -/
def Call.effect : Call → Option Document → Option (Option Document) × Except DocumentError Unit
  | .openDocument _ text version, none => (some (some ⟨version, text⟩), .ok ())
  | .openDocument uri _ _, some _ => (none, .error (.duplicate uri))
  | .edit uri _ _, none => (none, .error (.unknown uri))
  | .edit uri changes version, some document =>
    if version ≤ document.version then (none, .error (.stale uri document.version version))
    else
      match document.text.applyAll changes with
      | .ok text => (some (some ⟨version, text⟩), .ok ())
      | .error error => (none, .error error)
  | .close _, none => (none, .ok ())
  | .close _, some _ => (some none, .ok ())

/-- Sets the document of a uri, or takes it out, and queues the uri. -/
def assign (store : Store) (uri : String) : Option Document → Store
  | some document => store.put uri document
  | none => schedule { store with documents := Table.erase uri store.documents } uri

/-- Does what there is to write. -/
def write (store : Store) (uri : String) : Option (Option Document) → Store
  | some document => store.assign uri document
  | none => store

/-- A call reads the document of its own uri only, and writes nothing else. -/
theorem respond_eq_effect (store : Store) (call : Call) :
    store.respond call =
      (store.write call.uri (call.effect (store.document? call.uri)).1,
        (call.effect (store.document? call.uri)).2) := by
  cases call with
  | openDocument uri text version =>
    simp only [respond, perform, openDocument, Call.uri]
    cases store.document? uri <;> rfl
  | edit uri changes version =>
    simp only [respond, perform, Call.uri]
    cases found : store.document? uri with
    | none =>
      rw [edit_of_closed found]
      rfl
    | some document =>
      rw [edit_of_open found]
      by_cases stale : version ≤ document.version
      · simp only [Call.effect, if_pos stale]
        rfl
      · simp only [Call.effect, if_neg stale]
        cases document.text.applyAll changes <;> rfl
  | close uri =>
    simp only [respond, perform, close, Call.uri]
    cases store.document? uri <;> rfl

theorem document?_assign (store : Store) (uri key : String) (document : Option Document) :
    (store.assign uri document).document? key =
      if key = uri then document else store.document? key := by
  cases document with
  | some document => exact document?_put store uri key document
  | none =>
    unfold assign
    rw [document?_schedule]
    exact Table.lookup_erase key uri store.documents

theorem pending_assign (store : Store) (uri : String) (document : Option Document) :
    (store.assign uri document).pending =
      if uri ∈ store.pending then store.pending else store.pending ++ [uri] := by
  cases document with
  | some document => exact pending_put store uri document
  | none => exact pending_schedule _ uri

theorem nodup_respond {store : Store} (nodup : store.pending.Nodup) (call : Call) :
    (store.respond call).1.pending.Nodup := by
  rw [respond_eq_effect]
  rcases (call.effect (store.document? call.uri)).1 with _ | (_ | document)
  · exact nodup
  · refine nodup_schedule ?_ call.uri
    exact nodup
  · exact nodup_put nodup call.uri document

/-! ## One set of uris -/

/-- A store has on some uris what another one has, and the queue of that one is the part of its queue
that these uris make up. -/
structure Agrees (mine : String → Bool) (store alone : Store) : Prop where
  documents : ∀ uri, mine uri = true → store.document? uri = alone.document? uri
  pending : store.pending.filter mine = alone.pending

section

variable {mine : String → Bool} {store alone : Store}

theorem Agrees.mem_pending (agrees : Agrees mine store alone) {uri : String}
    (own : mine uri = true) : uri ∈ store.pending ↔ uri ∈ alone.pending := by
  rw [← agrees.pending, List.mem_filter, and_iff_left own]

/-- Both write the same. -/
theorem Agrees.write (agrees : Agrees mine store alone) {uri : String} (own : mine uri = true)
    (written : Option (Option Document)) :
    Agrees mine (store.write uri written) (alone.write uri written) := by
  cases written with
  | none => exact agrees
  | some document =>
    constructor
    · intro key held
      unfold Store.write
      rw [document?_assign, document?_assign, agrees.documents key held]
    · unfold Store.write
      rw [pending_assign, pending_assign]
      by_cases waits : uri ∈ store.pending
      · rw [if_pos waits, if_pos ((agrees.mem_pending own).mp waits), agrees.pending]
      · rw [if_neg waits, if_neg (mt (agrees.mem_pending own).mpr waits), List.filter_append,
          agrees.pending, List.filter_cons_of_pos own, List.filter_nil]

/-- What is written elsewhere does not count. -/
theorem Agrees.write_other (agrees : Agrees mine store alone) {uri : String}
    (foreign : mine uri = false) (written : Option (Option Document)) :
    Agrees mine (store.write uri written) alone := by
  cases written with
  | none => exact agrees
  | some document =>
    constructor
    · intro key held
      have other : key ≠ uri := by
        rintro rfl
        exact Bool.false_ne_true (foreign.symm.trans held)
      unfold Store.write
      rw [document?_assign, if_neg other, agrees.documents key held]
    · unfold Store.write
      rw [pending_assign]
      split
      · exact agrees.pending
      · rw [List.filter_append, agrees.pending, List.filter_cons_of_neg (by simp [foreign]),
          List.filter_nil, List.append_nil]

/-- A call on one of the uris gets the same reply, and leaves the same on them. -/
theorem Agrees.respond (agrees : Agrees mine store alone) {call : Call}
    (own : mine call.uri = true) :
    (store.respond call).2 = (alone.respond call).2 ∧
      Agrees mine (store.respond call).1 (alone.respond call).1 := by
  rw [respond_eq_effect, respond_eq_effect, agrees.documents call.uri own]
  exact ⟨rfl, agrees.write own _⟩

/-- A call on another uri leaves everything on them. -/
theorem Agrees.respond_other (agrees : Agrees mine store alone) {call : Call}
    (foreign : mine call.uri = false) : Agrees mine (store.respond call).1 alone := by
  rw [respond_eq_effect]
  exact agrees.write_other foreign _

end

/-! ## Runs -/

theorem run_cons (store : Store) (call : Call) (rest : List Call) :
    store.run (call :: rest) = (store.respond call).1.run rest := by
  unfold respond
  rw [run]
  cases store.perform call <;> rfl

/-- The calls with their replies. -/
def transcript (store : Store) : List Call → List (Call × Except DocumentError Unit)
  | [] => []
  | call :: rest => (call, (store.respond call).2) :: (store.respond call).1.transcript rest

theorem transcript_cons (store : Store) (call : Call) (rest : List Call) :
    store.transcript (call :: rest) =
      (call, (store.respond call).2) :: (store.respond call).1.transcript rest := rfl

theorem nodup_run {store : Store} (nodup : store.pending.Nodup) (calls : List Call) :
    (store.run calls).pending.Nodup := by
  induction calls generalizing store with
  | nil => exact nodup
  | cons call rest ih =>
    rw [run_cons]
    exact ih (nodup_respond nodup call)

/-- Calls on some uris and calls on all others, put together, do what each of them do alone. -/
theorem run_of_interleaves {mine : String → Bool} {first second calls : List Call}
    (woven : Interleaves first second calls) (own : ∀ call ∈ first, mine call.uri = true)
    (foreign : ∀ call ∈ second, mine call.uri = false) {store left right : Store}
    (here : Agrees mine store left) (there : Agrees (fun uri => !mine uri) store right) :
    Agrees mine (store.run calls) (left.run first) ∧
      Agrees (fun uri => !mine uri) (store.run calls) (right.run second) ∧
      Interleaves (left.transcript first) (right.transcript second) (store.transcript calls) := by
  induction woven generalizing store left right with
  | nil => exact ⟨here, there, .nil⟩
  | @left call first second calls _ ih =>
    obtain ⟨now, own⟩ := List.forall_mem_cons.mp own
    obtain ⟨reply, here⟩ := here.respond now
    have opposite : (!mine call.uri) = false := by rw [now, Bool.not_true]
    have there := there.respond_other opposite
    obtain ⟨same, others, replies⟩ := ih own foreign here there
    rw [run_cons, run_cons, transcript_cons, transcript_cons, reply]
    refine ⟨same, others, ?_⟩
    exact .left replies
  | @right call first second calls _ ih =>
    obtain ⟨now, foreign⟩ := List.forall_mem_cons.mp foreign
    have opposite : (!mine call.uri) = true := by rw [now, Bool.not_false]
    obtain ⟨reply, there⟩ := there.respond opposite
    have here := here.respond_other now
    obtain ⟨same, others, replies⟩ := ih own foreign here there
    rw [run_cons, run_cons, transcript_cons, transcript_cons, reply]
    refine ⟨same, others, ?_⟩
    exact .right replies

theorem agrees_empty (mine : String → Bool) : Agrees mine empty empty :=
  ⟨fun _ _ => rfl, rfl⟩

/-- None of the calls is on this uri. -/
def untouched (calls : List Call) (uri : String) : Bool :=
  decide (∀ call ∈ calls, call.uri ≠ uri)

section

variable {first second calls : List Call} (woven : Interleaves first second calls)
  (apart : ∀ a ∈ first, ∀ b ∈ second, a.uri ≠ b.uri)

include woven apart

theorem halves_of_interleaves :
    Agrees (untouched second) (empty.run calls) (empty.run first) ∧
      Agrees (fun uri => !untouched second uri) (empty.run calls) (empty.run second) ∧
      Interleaves (empty.transcript first) (empty.transcript second) (empty.transcript calls) := by
  have own : ∀ call ∈ first, untouched second call.uri = true := by
    intro call member
    exact decide_eq_true fun other there => (apart call member other there).symm
  have foreign : ∀ call ∈ second, untouched second call.uri = false := by
    intro call member
    exact decide_eq_false fun all => all call member rfl
  exact run_of_interleaves woven own foreign (agrees_empty _) (agrees_empty _)

theorem document?_run_of_interleaves {uri : String} (free : ∀ call ∈ second, call.uri ≠ uri) :
    (empty.run calls).document? uri = (empty.run first).document? uri :=
  (halves_of_interleaves woven apart).1.documents uri (decide_eq_true free)

end

/-- Two lists of calls that have no uri in common do not notice one another. In every interleaving
each call gets the reply that it gets where its own list runs alone, every uri ends with the version
and text that it ends with there, and draining the queue gives each uri once, those of each list in
the order that they have there. -/
theorem interleaved_calls {first second calls : List Call}
    (woven : Interleaves first second calls)
    (apart : ∀ a ∈ first, ∀ b ∈ second, a.uri ≠ b.uri) :
    let together := empty.run calls
    Interleaves (empty.transcript first) (empty.transcript second) (empty.transcript calls) ∧
      (∀ uri, (∀ call ∈ second, call.uri ≠ uri) →
        together.document? uri = (empty.run first).document? uri) ∧
      (∀ uri, (∀ call ∈ first, call.uri ≠ uri) →
        together.document? uri = (empty.run second).document? uri) ∧
      together.drain.1.Nodup ∧
      Interleaves (empty.run first).drain.1 (empty.run second).drain.1 together.drain.1 := by
  intro together
  obtain ⟨here, there, replies⟩ := halves_of_interleaves woven apart
  refine ⟨replies, ?_, ?_, nodup_run List.nodup_nil calls, ?_⟩
  · exact fun uri free => document?_run_of_interleaves woven apart free
  · intro uri free
    exact document?_run_of_interleaves woven.symm
      (fun b there a here => (apart a here b there).symm) free
  · have queued := interleaves_filter (untouched second) together.pending
    rwa [here.pending, there.pending] at queued

/-- An edit is refused between the calls on another document just as it is without them. -/
theorem interleaved_calls_refused :
    let first : List Call := [.openDocument "a" ⟨['x']⟩ 1, .edit "a" [] 2]
    let second : List Call := [.edit "b" [] 1, .openDocument "b" ⟨[]⟩ 1, .close "b"]
    let calls : List Call := [.edit "b" [] 1, .openDocument "a" ⟨['x']⟩ 1,
      .openDocument "b" ⟨[]⟩ 1, .edit "a" [] 2, .close "b"]
    Interleaves first second calls ∧ (∀ a ∈ first, ∀ b ∈ second, a.uri ≠ b.uri) ∧
      (empty.respond (.edit "b" [] 1)).2 = .error (.unknown "b") ∧
      Interleaves (empty.transcript first) (empty.transcript second) (empty.transcript calls) ∧
      (empty.run calls).document? "a" = some ⟨2, ⟨['x']⟩⟩ ∧
      (empty.run calls).document? "b" = none ∧
      Interleaves ["a"] ["b"] (empty.run calls).drain.1 := by
  intro first second calls
  have woven : Interleaves first second calls := .right (.left (.right (.left (.right .nil))))
  have apart : ∀ a ∈ first, ∀ b ∈ second, a.uri ≠ b.uri := by
    simp [first, second, Call.uri]
  obtain ⟨replies, here, there, -, queued⟩ := interleaved_calls woven apart
  have free : ∀ call ∈ second, call.uri ≠ "a" := by simp [second, Call.uri]
  have bound : ∀ call ∈ first, call.uri ≠ "b" := by simp [first, Call.uri]
  exact ⟨woven, apart, rfl, replies, here "a" free, there "b" bound, queued⟩

end Store

end LanguageServer
