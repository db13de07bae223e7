import LanguageServer.Proofs.Stream
/-!
# The life of a session

A session begins at the first request to begin and shuts down at the first request to shut down
after it (`lifecycle`). `Phase.Step` tells what one message makes of the phase; the state that a run
ends in is the one that the messages it handles lead to (`session_run`).
-/

namespace LanguageServer

/-- The message that is read. -/
def Reading.message? : Reading → Option Json
  | .message value => some value
  | _ => none

/-- Some of the messages is a request for this. -/
def Asked (messages : List Json) (method : String) : Prop :=
  ∃ message ∈ messages, ∃ id, message.Requests id method

/-- Some request to begin comes before some request to shut down. -/
def Finished (messages : List Json) : Prop :=
  ∃ early late, messages = early ++ late ∧ Asked early "initialize" ∧ Asked late "shutdown"

theorem not_asked_nil (method : String) : ¬Asked [] method := by simp [Asked]

theorem asked_cons {message : Json} {rest : List Json} {method : String} :
    Asked (message :: rest) method ↔ (∃ id, message.Requests id method) ∨ Asked rest method := by
  simp [Asked]

theorem not_finished_nil : ¬Finished [] := by
  rintro ⟨early, late, parts, begun, -⟩
  obtain ⟨rfl, -⟩ := List.nil_eq_append_iff.mp parts
  exact not_asked_nil _ begun

theorem finished_cons {message : Json} {rest : List Json} :
    Finished (message :: rest) ↔
      ((∃ id, message.Requests id "initialize") ∧ Asked rest "shutdown") ∨ Finished rest := by
  constructor
  · rintro ⟨early, late, parts, begun, ended⟩
    rcases List.cons_eq_append_iff.mp parts with ⟨rfl, -⟩ | ⟨tail, rfl, rfl⟩
    · exact absurd begun (not_asked_nil _)
    · rcases asked_cons.mp begun with first | later
      · obtain ⟨shut, member, asked⟩ := ended
        exact .inl ⟨first, shut, List.mem_append_right _ member, asked⟩
      · exact .inr ⟨tail, late, rfl, later, ended⟩
  · rintro (⟨first, ended⟩ | ⟨early, late, rfl, begun, ended⟩)
    · exact ⟨[message], rest, rfl, asked_cons.mpr (.inl first), ended⟩
    · exact ⟨message :: early, late, rfl, asked_cons.mpr (.inr begun), ended⟩

theorem Finished.asked_shutdown {messages : List Json} (finished : Finished messages) :
    Asked messages "shutdown" := by
  obtain ⟨early, late, rfl, -, message, member, asked⟩ := finished
  exact ⟨message, List.mem_append_right early member, asked⟩

/-- What a message makes of the phase of a session. -/
inductive Phase.Step (message : Json) : Phase → Phase → Prop
  | begin {id : Json} (asked : message.Requests id "initialize") :
      Step message .uninitialized .running
  | wait (other : ∀ id, ¬message.Requests id "initialize") :
      Step message .uninitialized .uninitialized
  | shutDown {id : Json} (asked : message.Requests id "shutdown") :
      Step message .running .shuttingDown
  | serve (other : ∀ id, ¬message.Requests id "shutdown") : Step message .running .running
  | rest : Step message .shuttingDown .shuttingDown

theorem Phase.step_of_not_requests {message : Json}
    (h : ∀ id method, ¬message.Requests id method) (phase : Phase) :
    Phase.Step message phase phase := by
  cases phase with
  | uninitialized => exact .wait fun id => h id _
  | running => exact .serve fun id => h id _
  | shuttingDown => exact .rest

namespace Session

theorem phase_of_step {session next : Session} {message : Json} {sent : List Outgoing}
    (step : Step session message next sent) : Phase.Step message session.phase next.phase := by
  cases step with
  | begin phase asked =>
    rw [phase]
    exact .begin asked
  | early phase asked other =>
    rw [phase]
    exact .wait fun _ named => other (asked.method_eq named)
  | shutDown phase asked =>
    rw [phase]
    exact .shutDown asked
  | answer phase asked other =>
    rw [phase]
    exact .serve fun _ named => other (asked.method_eq named)
  | late phase asked =>
    rw [phase]
    exact .rest
  | exit told | notice _ told | ignored told =>
    exact Phase.step_of_not_requests (fun _ _ asked => asked.not_notifies told) _
  | response responds =>
    exact Phase.step_of_not_requests (fun _ method asked => responds.1 method asked.1) _
  | invalid meaningless =>
    exact Phase.step_of_not_requests (fun _ method asked => meaningless.1 method asked.1) _

/-- Each message takes the phase one step. -/
theorem phase_handle (session : Session) (message : Json) :
    Phase.Step message session.phase (session.handle message).1.phase :=
  phase_of_step (session.step_handle message)

/-! ## The phase after many messages -/

theorem phase_after_of_shuttingDown {session : Session} (phase : session.phase = .shuttingDown)
    (messages : List Json) : (session.after messages).phase = .shuttingDown := by
  induction messages generalizing session with
  | nil => exact phase
  | cons message rest ih =>
    have step := session.phase_handle message
    rw [phase] at step
    generalize next : (session.handle message).1.phase = p at step
    cases step
    exact ih next

/-- A running session shuts down at the first request to shut down. -/
theorem phase_after_of_running {session : Session} (phase : session.phase = .running)
    (messages : List Json) :
    (session.after messages).phase ≠ .uninitialized ∧
      ((session.after messages).phase = .shuttingDown ↔ Asked messages "shutdown") := by
  induction messages generalizing session with
  | nil => simp [phase, not_asked_nil]
  | cons message rest ih =>
    have step := session.phase_handle message
    rw [phase] at step
    generalize next : (session.handle message).1.phase = p at step
    rw [after_cons, asked_cons]
    cases step with
    | shutDown asked =>
      rw [phase_after_of_shuttingDown next]
      simp only [true_iff]
      exact ⟨by simp, .inl ⟨_, asked⟩⟩
    | serve other =>
      rw [or_iff_right (not_exists.mpr other)]
      exact ih next

/-- A session begins at the first request to begin, and shuts down at the first request to shut down
after it. -/
theorem phase_after_of_uninitialized {session : Session} (phase : session.phase = .uninitialized)
    (messages : List Json) :
    ((session.after messages).phase = .uninitialized ↔ ¬Asked messages "initialize") ∧
      ((session.after messages).phase = .shuttingDown ↔ Finished messages) := by
  induction messages generalizing session with
  | nil => simp [phase, not_asked_nil, not_finished_nil]
  | cons message rest ih =>
    have step := session.phase_handle message
    rw [phase] at step
    generalize next : (session.handle message).1.phase = p at step
    rw [after_cons, asked_cons, finished_cons]
    cases step with
    | begin asked =>
      obtain ⟨begun, shut⟩ := phase_after_of_running next rest
      have first : ∃ id, message.Requests id "initialize" := ⟨_, asked⟩
      -- From here on any request to shut down will do, whether or not another to begin precedes it.
      refine ⟨iff_of_false begun (not_not_intro (.inl first)), shut.trans ?_⟩
      constructor
      · exact fun ended => .inl ⟨first, ended⟩
      · rintro (⟨-, ended⟩ | finished)
        · exact ended
        · exact finished.asked_shutdown
    | wait other =>
      have later : ¬∃ id, message.Requests id "initialize" := not_exists.mpr other
      rw [or_iff_right later, or_iff_right fun both => later both.1]
      exact ih next

/-- A session exits once the client has asked it to. -/
theorem exiting_after (session : Session) (messages : List Json) :
    (session.after messages).exiting = true ↔
      session.exiting = true ∨ ∃ message ∈ messages, message.Notifies "exit" := by
  induction messages generalizing session with
  | nil => simp
  | cons message rest ih =>
    rw [after_cons, ih, exiting_handle, or_assoc]
    simp

/-! ## What is refused and what is kept -/

theorem handle_of_uninitialized {session : Session} (phase : session.phase = .uninitialized)
    {message id : Json} {method : String} (asked : message.Requests id method)
    (other : method ≠ "initialize") :
    session.handle message = (session, [.failure id .notInitialized]) := by
  rw [handle_of_requests session asked]
  unfold handleRequest
  rw [phase]
  dsimp only
  rw [if_neg other]

theorem handle_of_shuttingDown {session : Session} (phase : session.phase = .shuttingDown)
    {message id : Json} {method : String} (asked : message.Requests id method) :
    session.handle message = (session, [.failure id .shuttingDown]) := by
  rw [handle_of_requests session asked]
  unfold handleRequest
  rw [phase]

/-- A session that is shut down keeps its workspace and publishes nothing. -/
theorem Step.of_shuttingDown {session next : Session} {message : Json} {sent : List Outgoing}
    (step : Step session message next sent) (phase : session.phase = .shuttingDown) :
    next.workspace = session.workspace ∧ ∀ item ∈ sent, ¬item.toJson.Publishes := by
  cases step with
  | begin before | early before | shutDown before | answer before | notice before =>
    cases phase.symm.trans before
  | exit | ignored | response => exact ⟨rfl, fun item member => by cases member⟩
  | late | invalid =>
    refine ⟨rfl, fun item member => ?_⟩
    rw [List.mem_singleton.mp member]
    exact (Outgoing.refuses_failure _ _).1.not_publishes

/-! ## Runs -/

/-- The messages that a session over a stream handles. -/
def handled (session : Session) (outlet : Outlet) (input : List UInt8) : List Json :=
  if session.exiting then []
  else if _nonempty : input = [] then []
  else
    match session.turn (Frame.read input).1 with
    | .ended => []
    | .failed _ => []
    | .handled next sent =>
      let delivery := outlet.send sent
      (Frame.read input).1.message?.toList ++
        if delivery.complete then handled next delivery.outlet (Frame.read input).2 else []
termination_by input.length
decreasing_by exact Frame.length_lt_of_read _nonempty

theorem after_of_turn {session next : Session} {reading : Reading} {sent : List Outgoing}
    (h : session.turn reading = .handled next sent) :
    session.after reading.message?.toList = next := by
  unfold turn at h
  split at h
  · cases h
  · cases h
    rfl
  · cases h
    rfl
  · cases h

/-- A session over a stream ends as the messages that it handles leave it. -/
theorem session_run (session : Session) (outlet : Outlet) (input : List UInt8) :
    (session.run outlet input).session = session.after (session.handled outlet input) := by
  fun_induction run session outlet input with
  | case1 session outlet input exiting => rw [handled, if_pos exiting, after_nil]
  | case2 session outlet active => rw [handled, if_neg active, dif_pos rfl, after_nil]
  | case3 session outlet input active nonempty ended =>
    rw [handled, if_neg active, dif_neg nonempty, ended, after_nil]
  | case4 session outlet input active nonempty error failed =>
    rw [handled, if_neg active, dif_neg nonempty, failed, after_nil]
  | case5 session outlet input active nonempty next sent served delivery complete ih =>
    rw [handled, if_neg active, dif_neg nonempty, served]
    dsimp only
    rw [if_pos complete, after_append, after_of_turn served]
    exact ih
  | case6 session outlet input active nonempty next sent served delivery incomplete =>
    rw [handled, if_neg active, dif_neg nonempty, served]
    dsimp only
    rw [if_neg incomplete, List.append_nil, after_of_turn served]

theorem Outcome.exitCode_eq_zero {outcome : Outcome} :
    outcome.exitCode = 0 ↔ outcome.result = .ok true := by
  unfold exitCode
  split
  · rename_i clean
    simp [clean]
  · rename_i unclean
    exact iff_of_false (by decide) unclean

/-- A run ends cleanly just when it ends without error and the messages it handled began the session
and shut it down. -/
theorem run_eq_clean (outlet : Outlet) (input : List UInt8) :
    (new.run outlet input).result = .ok true ↔
      (∃ clean, (new.run outlet input).result = .ok clean) ∧
        Finished (new.handled outlet input) := by
  have shut : (new.run outlet input).session.isClean = true ↔
      Finished (new.handled outlet input) := by
    rw [session_run, isClean, decide_eq_true_eq]
    exact (phase_after_of_uninitialized rfl _).2
  constructor
  · intro clean
    exact ⟨⟨true, clean⟩, shut.mp (run_eq_ok clean).1.symm⟩
  · rintro ⟨⟨clean, ended⟩, finished⟩
    rw [ended, (run_eq_ok ended).1, shut.mpr finished]

/-- Over any conversation a session begins at the first request to begin and shuts down at the first
request to shut down after it, and only these two move it. It exits from the first notification to
exit on. Before it begins it has no document and the initial settings, and refuses all requests but
the one to begin; once it is shut down it keeps its documents and settings, publishes nothing and
refuses all requests. So a run ends with exit code zero just when it ends without error and the
messages it handled began the session and shut it down. -/
theorem lifecycle (messages : List Json) :
    let session := new.after messages
    (session.phase = .uninitialized ↔ ¬Asked messages "initialize") ∧
    (session.phase = .shuttingDown ↔ Finished messages) ∧
    (session.exiting = true ↔ ∃ message ∈ messages, message.Notifies "exit") ∧
    (∀ message,
      Phase.Step message session.phase (session.handle message).1.phase ∧
      ((session.handle message).1.exiting = true ↔
        session.exiting = true ∨ message.Notifies "exit")) ∧
    (session.phase = .uninitialized →
      (∀ uri, session.workspace.store.document? uri = none) ∧
      session.workspace.config = .initial ∧
      ∀ message id method, message.Requests id method → method ≠ "initialize" →
        ∃ reply, (session.handle message).2 = [reply] ∧ reply.toJson.Refuses id (-32002)) ∧
    (session.phase = .shuttingDown →
      (∀ message, (session.handle message).1.workspace = session.workspace ∧
        ∀ item ∈ (session.handle message).2, ¬item.toJson.Publishes) ∧
      ∀ message id method, message.Requests id method →
        ∃ reply, (session.handle message).2 = [reply] ∧ reply.toJson.Refuses id (-32600)) ∧
    (∀ outlet input,
      let outcome := new.run outlet input
      outcome.session = new.after (new.handled outlet input) ∧
      (outcome.exitCode = 0 ↔ outcome.result = .ok true) ∧
      (outcome.result = .ok true ↔
        (∃ clean, outcome.result = .ok clean) ∧ Finished (new.handled outlet input))) := by
  intro session
  obtain ⟨begun, shut⟩ := phase_after_of_uninitialized (rfl : new.phase = .uninitialized) messages
  refine ⟨begun, shut, ?_, ?_, ?_, ?_, ?_⟩
  · exact (exiting_after new messages).trans (or_iff_right Bool.false_ne_true)
  · exact fun message => ⟨session.phase_handle message, session.exiting_handle message⟩
  · intro phase
    have fresh : session.workspace = new.workspace := (valid_after messages).fresh phase
    refine ⟨fun uri => by rw [fresh]; rfl, by rw [fresh]; rfl, ?_⟩
    intro message id method asked other
    exact ⟨_, congrArg Prod.snd (handle_of_uninitialized phase asked other),
      Outgoing.refuses_failure id .notInitialized⟩
  · intro phase
    refine ⟨fun message => (session.step_handle message).of_shuttingDown phase, ?_⟩
    intro message id method asked
    exact ⟨_, congrArg Prod.snd (handle_of_shuttingDown phase asked),
      Outgoing.refuses_failure id .shuttingDown⟩
  · exact fun outlet input =>
      ⟨new.session_run outlet input, Outcome.exitCode_eq_zero, run_eq_clean outlet input⟩

end Session

end LanguageServer
