import LanguageServer.Proofs.Conversation
/-!
# Responses

Which messages are answered and how (`responses`): a request once, under its id; a notification and
a response never; anything else by an error without an id. Over a conversation the answers come in
the order of what they answer.
-/

namespace LanguageServer

namespace Json

/-- The id that a message of the server answers, if it is a response. -/
def answered? (reply : Json) : Option Json :=
  if (reply.get? "method").isSome then none else reply.get? "id"

/-- The id under which a message of the client has to be answered: a request under its own, and what
has no meaning under null. -/
def awaited? (message : Json) : Option Json :=
  if ((message.get? "method").bind str?).isSome then message.get? "id"
  else if (message.get? "id").isSome ∧
    ((message.get? "result").isSome ∨ (message.get? "error").isSome) then none
  else some .null

variable {message id : Json} {method : String}

theorem awaited?_of_requests (h : message.Requests id method) : message.awaited? = some id := by
  unfold awaited?
  rw [h.1, h.2]
  rfl

theorem awaited?_of_notifies (h : message.Notifies method) : message.awaited? = none := by
  unfold awaited?
  rw [h.1, h.2]
  rfl

theorem awaited?_of_responds (h : message.Responds) : message.awaited? = none := by
  unfold awaited?
  rw [bind_str?_eq_none.mpr h.1, if_neg (by simp), if_pos h.2]

theorem awaited?_of_meaningless (h : message.Meaningless) : message.awaited? = some .null := by
  unfold awaited?
  rw [bind_str?_eq_none.mpr h.1, if_neg (by simp), if_neg h.2]

theorem Answers.answered? {reply : Json} (h : reply.Answers id) : reply.answered? = some id := by
  unfold Json.answered?
  rw [h.1, h.2.1]
  rfl

theorem Publishes.answered? (h : message.Publishes) : message.answered? = none := by
  unfold Json.answered?
  rw [h.1.1]
  rfl

end Json

theorem Outgoing.publishes_of_mem_map {sets : List Publication} {json : Json}
    (h : json ∈ (sets.map publication).map toJson) : json.Publishes := by
  obtain ⟨message, member, rfl⟩ := List.mem_map.mp h
  obtain ⟨set, -, rfl⟩ := List.mem_map.mp member
  exact publishes_publication set

namespace Session

/-- Whatever a request asks for while the session runs, there is one response to it. -/
theorem answers_answer (session : Session) (id : Json) (method : String) (params : Json) :
    (session.answer id method params).toJson.Answers id := by
  unfold answer
  split
  · exact (Outgoing.refuses_failure _ _).1
  · exact Outgoing.answers_result _ _
  · split
    · exact Outgoing.answers_result _ _
    · exact (Outgoing.refuses_failure _ _).1
  · exact Outgoing.answers_result _ _
  · exact (Outgoing.refuses_failure _ _).1

theorem answers_handleRequest (session : Session) (id : Json) (method : String) (params : Json) :
    (session.handleRequest id method params).2.toJson.Answers id := by
  unfold handleRequest
  split
  · split
    · exact Outgoing.answers_result _ _
    · exact (Outgoing.refuses_failure _ _).1
  · exact session.answers_answer id method params
  · exact (Outgoing.refuses_failure _ _).1

/-- No request changes the documents, or queues one. -/
theorem Valid.store_handleRequest {session : Session} (valid : session.Valid) (id : Json)
    (method : String) (params : Json) :
    (session.handleRequest id method params).1.workspace.store = session.workspace.store := by
  unfold handleRequest
  split
  · rename_i phase
    split
    · exact valid.store_begin phase params
    · rfl
  · split <;> rfl
  · rfl

/-- What is sent about a message answers it, if it has to be answered, and nothing else. -/
theorem answered?_handle (session : Session) (message : Json) :
    ((session.handle message).2.map Outgoing.toJson).filterMap Json.answered? =
      message.awaited?.toList := by
  rcases message.kinds with ⟨id, method, asked⟩ | ⟨method, told⟩ | responds | meaningless
  · rw [handle_of_requests session asked, Json.awaited?_of_requests asked]
    have answers := session.answers_handleRequest id method message.parameters
    simp [answers.answered?]
  · rw [handle_of_notifies session told, Json.awaited?_of_notifies told]
    exact List.filterMap_eq_nil_iff.mpr fun json member =>
      (Outgoing.publishes_of_mem_map member).answered?
  · rw [handle_of_responds session responds, Json.awaited?_of_responds responds]
    rfl
  · rw [handle_of_meaningless session meaningless, Json.awaited?_of_meaningless meaningless]
    have answers := (Outgoing.refuses_failure .null .invalid).1
    simp [answers.answered?]

/-- A working outlet takes all answers of a conversation, in the order of what they answer. -/
theorem answered?_converse (session : Session) {outlet : Outlet} (works : outlet.Works)
    (messages : List Json) :
    (session.converse outlet messages).2.complete = true ∧
      ((session.converse outlet messages).2.taken.map Outgoing.toJson).filterMap Json.answered? =
        messages.filterMap Json.awaited? := by
  induction messages generalizing session outlet with
  | nil => exact ⟨rfl, rfl⟩
  | cons message rest ih =>
    obtain ⟨goesOn, taken, complete⟩ := works.send (session.handle message).2
    obtain ⟨completeRest, answers⟩ := ih (session.handle message).1 goesOn
    simp only [converse, taken, complete, completeRest, List.map_append, List.filterMap_append,
      answers, answered?_handle, Bool.and_self, true_and]
    rw [List.filterMap_cons]
    cases message.awaited? with
    | none => rfl
    | some id => rfl

/-- After any conversation, and whatever the next message is, a working outlet takes all that is
sent about it. That is one response under its id for a request, which leaves the documents and the
queue as they are; nothing but publications for a notification; nothing for a response; and an error
without an id for all else. So the responses of a conversation answer its requests once each, in
their order, with an error for each message without meaning in between. -/
theorem responses (messages : List Json) :
    (∀ message : Json,
      let session := new.after messages
      let next := (session.handle message).1
      let delivery := Outlet.working.send (session.handle message).2
      let written := delivery.taken.map Outgoing.toJson
      delivery.complete = true ∧
      (∀ id method, message.Requests id method →
        (∃ reply, written = [reply] ∧ reply.Answers id) ∧
        next.workspace.store = session.workspace.store) ∧
      (∀ method, message.Notifies method → ∀ json ∈ written, json.Publishes) ∧
      (message.Responds → written = [] ∧ next = session) ∧
      (message.Meaningless →
        (∃ reply, written = [reply] ∧ reply.Refuses .null (-32600)) ∧ next = session)) ∧
    (new.converse .working messages).2.complete = true ∧
    ((new.converse .working messages).2.taken.map Outgoing.toJson).filterMap Json.answered? =
      messages.filterMap Json.awaited? := by
  refine ⟨?_, answered?_converse new Outlet.works_working messages⟩
  intro message session next delivery written
  obtain ⟨-, taken, complete⟩ := Outlet.works_working.send (session.handle message).2
  have written_eq : written = (session.handle message).2.map Outgoing.toJson :=
    congrArg (List.map Outgoing.toJson) taken
  refine ⟨complete, ?_, ?_, ?_, ?_⟩
  · intro id method asked
    show (∃ reply, written = [reply] ∧ reply.Answers id) ∧
      (session.handle message).1.workspace.store = session.workspace.store
    rw [written_eq, handle_of_requests session asked]
    refine ⟨⟨_, rfl, session.answers_handleRequest id method message.parameters⟩, ?_⟩
    exact (valid_after messages).store_handleRequest id method message.parameters
  · intro method told
    rw [written_eq, handle_of_notifies session told]
    exact fun json member => Outgoing.publishes_of_mem_map member
  · intro responds
    show written = [] ∧ (session.handle message).1 = session
    rw [written_eq, handle_of_responds session responds]
    exact ⟨rfl, rfl⟩
  · intro meaningless
    show (∃ reply, written = [reply] ∧ reply.Refuses .null (-32600)) ∧
      (session.handle message).1 = session
    rw [written_eq, handle_of_meaningless session meaningless]
    exact ⟨⟨_, rfl, Outgoing.refuses_failure .null .invalid⟩, rfl⟩

end Session

end LanguageServer
