import LanguageServer.Proofs.Message
import LanguageServer.Proofs.Notice
/-!
# Conversations

What one message makes of a session, with one case for each thing that can happen (`Step`). A
session takes just these steps (`step_handle`), so whatever they all keep holds after every
conversation: `Valid` is such an invariant (`valid_after`).
-/

namespace LanguageServer.Session

/-! ## One message -/

/-- What a message makes of a session, and what is sent about it. -/
inductive Step (session : Session) (message : Json) : Session → List Outgoing → Prop
  | begin {id : Json} (phase : session.phase = .uninitialized)
      (asked : message.Requests id "initialize") :
      Step session message (session.begin message.parameters) [.result id greeting]
  | early {id : Json} {method : String} (phase : session.phase = .uninitialized)
      (asked : message.Requests id method) (other : method ≠ "initialize") :
      Step session message session [.failure id .notInitialized]
  | shutDown {id : Json} (phase : session.phase = .running)
      (asked : message.Requests id "shutdown") :
      Step session message { session with phase := .shuttingDown } [.result id .null]
  | answer {id : Json} {method : String} (phase : session.phase = .running)
      (asked : message.Requests id method) (other : method ≠ "shutdown") :
      Step session message session [session.answer id method message.parameters]
  | late {id : Json} {method : String} (phase : session.phase = .shuttingDown)
      (asked : message.Requests id method) :
      Step session message session [.failure id .shuttingDown]
  | exit (told : message.Notifies "exit") : Step session message { session with exiting := true } []
  | notice {method : String} {workspace : Workspace} (phase : session.phase = .running)
      (told : message.Notifies method) (other : method ≠ "exit")
      (taken : session.workspace.notified? method message.parameters = some workspace) :
      Step session message { session with workspace := workspace.publish.2 }
        (workspace.publish.1.map .publication)
  | ignored {method : String} (told : message.Notifies method) (other : method ≠ "exit")
      (dropped : session.phase = .running →
        session.workspace.notified? method message.parameters = none) :
      Step session message session []
  | response (responds : message.Responds) : Step session message session []
  | invalid (meaningless : message.Meaningless) :
      Step session message session [.failure .null .invalid]

section

variable (session : Session) {message id : Json} {method : String}

theorem handle_of_requests (asked : message.Requests id method) :
    session.handle message =
      ((session.handleRequest id method message.parameters).1,
        [(session.handleRequest id method message.parameters).2]) := by
  unfold handle
  rw [Incoming.ofJson_of_requests asked]

/-- A running session answers every request, and only one to shut down changes it. -/
theorem handle_of_running (running : session.phase = .running) (asked : message.Requests id method)
    (other : method ≠ "shutdown") :
    session.handle message = (session, [session.answer id method message.parameters]) := by
  rw [handle_of_requests session asked]
  unfold handleRequest
  rw [running]
  simp only [if_neg other]

theorem handle_of_notifies (told : message.Notifies method) :
    session.handle message =
      ((session.handleNotification method message.parameters).1,
        (session.handleNotification method message.parameters).2.map .publication) := by
  unfold handle
  rw [Incoming.ofJson_of_notifies told]

theorem handle_of_responds (responds : message.Responds) :
    session.handle message = (session, []) := by
  unfold handle
  rw [Incoming.ofJson_of_responds responds]

theorem handle_of_meaningless (meaningless : message.Meaningless) :
    session.handle message = (session, [.failure .null .invalid]) := by
  unfold handle
  rw [Incoming.ofJson_of_meaningless meaningless]

theorem step_of_requests (asked : message.Requests id method) :
    Step session message (session.handleRequest id method message.parameters).1
      [(session.handleRequest id method message.parameters).2] := by
  unfold handleRequest
  cases phase : session.phase with
  | uninitialized =>
    by_cases initial : method = "initialize"
    · subst initial
      exact .begin phase asked
    · dsimp only
      rw [if_neg initial]
      exact .early phase asked initial
  | running =>
    by_cases final : method = "shutdown"
    · subst final
      exact .shutDown phase asked
    · dsimp only
      rw [if_neg final]
      exact .answer phase asked final
  | shuttingDown => exact .late phase asked

theorem step_of_notifies (told : message.Notifies method) :
    Step session message (session.handleNotification method message.parameters).1
      ((session.handleNotification method message.parameters).2.map .publication) := by
  unfold handleNotification
  by_cases leaves : method = "exit"
  · subst leaves
    exact .exit told
  · rw [if_neg leaves]
    by_cases phase : session.phase = .running
    · rw [if_pos phase]
      cases taken : session.workspace.notified? method message.parameters with
      | some workspace => exact .notice phase told leaves taken
      | none => exact .ignored told leaves fun _ => taken
    · rw [if_neg phase]
      exact .ignored told leaves fun running => absurd running phase

end

/-- Handling a message is a step. -/
theorem step_handle (session : Session) (message : Json) :
    Step session message (session.handle message).1 (session.handle message).2 := by
  rcases message.kinds with ⟨id, method, asked⟩ | ⟨method, told⟩ | responds | meaningless
  · rw [handle_of_requests session asked]
    exact step_of_requests session asked
  · rw [handle_of_notifies session told]
    exact step_of_notifies session told
  · rw [handle_of_responds session responds]
    exact .response responds
  · rw [handle_of_meaningless session meaningless]
    exact .invalid meaningless

theorem exiting_handleRequest (session : Session) (id : Json) (method : String) (params : Json) :
    (session.handleRequest id method params).1.exiting = session.exiting := by
  unfold handleRequest
  split
  · split <;> rfl
  · split <;> rfl
  · rfl

theorem exiting_handleNotification (session : Session) (method : String) (params : Json) :
    (session.handleNotification method params).1.exiting =
      (session.exiting || method = "exit") := by
  unfold handleNotification
  by_cases leaves : method = "exit"
  · simp [leaves]
  · rw [if_neg leaves, decide_eq_false leaves, Bool.or_false]
    split
    · split <;> rfl
    · rfl

/-- Only the notification to exit makes a session exit, and nothing takes that back. -/
theorem exiting_handle (session : Session) (message : Json) :
    (session.handle message).1.exiting = true ↔
      session.exiting = true ∨ message.Notifies "exit" := by
  rcases message.kinds with ⟨id, method, asked⟩ | ⟨method, told⟩ | responds | meaningless
  · rw [handle_of_requests session asked, exiting_handleRequest, or_iff_left asked.not_notifies]
  · have named : message.Notifies "exit" ↔ method = "exit" :=
      ⟨told.method_eq, fun same => same ▸ told⟩
    rw [handle_of_notifies session told, exiting_handleNotification, named, Bool.or_eq_true,
      decide_eq_true_eq]
  · have other : ¬message.Notifies "exit" := fun told => responds.1 _ told.1
    rw [handle_of_responds session responds, or_iff_left other]
  · have other : ¬message.Notifies "exit" := fun told => meaningless.1 _ told.1
    rw [handle_of_meaningless session meaningless, or_iff_left other]

/-! ## Many messages -/

/-- The session after some messages. -/
def after (session : Session) (messages : List Json) : Session :=
  messages.foldl (fun session message => (session.handle message).1) session

@[simp] theorem after_nil (session : Session) : session.after [] = session := rfl

theorem after_cons (session : Session) (message : Json) (rest : List Json) :
    session.after (message :: rest) = (session.handle message).1.after rest := rfl

theorem after_append (session : Session) (first second : List Json) :
    session.after (first ++ second) = (session.after first).after second :=
  List.foldl_append

/-- Handles messages one after another and sends what there is to send over an outlet. The session
goes on where the outlet does not take something. -/
def converse (session : Session) (outlet : Outlet) : List Json → Session × Delivery Outgoing
  | [] => (session, ⟨outlet, [], true⟩)
  | message :: rest =>
    let (next, sent) := session.handle message
    let delivery := outlet.send sent
    let (last, later) := next.converse delivery.outlet rest
    (last, ⟨later.outlet, delivery.taken ++ later.taken, delivery.complete && later.complete⟩)

/-- What holds of a session between messages. -/
structure Valid (session : Session) : Prop where
  /-- No uri waits. -/
  idle : session.workspace.store.pending = []
  ascending : Table.Ascending session.workspace.store.documents
  /-- Before the client begins nothing has happened. -/
  fresh : session.phase = .uninitialized → session.workspace = new.workspace

theorem valid_new : new.Valid := ⟨rfl, .nil, fun _ => rfl⟩

theorem ascending_of_notified? {workspace next : Workspace} {method : String} {params : Json}
    (ascending : Table.Ascending workspace.store.documents)
    (taken : workspace.notified? method params = some next) :
    Table.Ascending next.store.documents := by
  rcases Workspace.eq_or_eq_perform_of_notified? taken with rfl | ⟨notice, rfl⟩
  · exact ascending
  · exact Workspace.ascending_perform ascending notice

/-- Beginning a session has no document to queue. -/
theorem Valid.store_begin {session : Session} (valid : session.Valid)
    (phase : session.phase = .uninitialized) (params : Json) :
    (session.begin params).workspace.store = session.workspace.store := by
  show session.workspace.store.scheduleAll = session.workspace.store
  rw [valid.fresh phase]
  rfl

/-- Every step keeps the invariant. -/
theorem Valid.step {session next : Session} {message : Json} {sent : List Outgoing}
    (valid : session.Valid) (step : Step session message next sent) : next.Valid := by
  cases step with
  | begin phase asked =>
    have same := valid.store_begin phase message.parameters
    refine ⟨?_, ?_, fun before => by cases before⟩
    · rw [same]
      exact valid.idle
    · rw [same]
      exact valid.ascending
  | shutDown => exact ⟨valid.idle, valid.ascending, fun before => by cases before⟩
  | exit => exact ⟨valid.idle, valid.ascending, valid.fresh⟩
  | notice phase told other taken =>
    have ascending := ascending_of_notified? valid.ascending taken
    refine ⟨rfl, ascending, fun before => ?_⟩
    cases phase.symm.trans before
  | early | answer | late | ignored | response | invalid => exact valid

theorem Valid.after {session : Session} (valid : session.Valid) (messages : List Json) :
    (session.after messages).Valid := by
  induction messages generalizing session with
  | nil => exact valid
  | cons message rest ih => exact ih (valid.step (step_handle session message))

/-- The invariant holds after every conversation. -/
theorem valid_after (messages : List Json) : (new.after messages).Valid :=
  valid_new.after messages

end LanguageServer.Session
