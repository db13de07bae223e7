import LanguageServer.Proofs.Lifecycle
/-!
# Writes that fail

A server at work changes its session and writes to its client in turns, and a write that the outlet
does not take breaks the work off (`Server.attend`). All that a message changes is changed before
the first write, so the work leaves the same session wherever it is broken off (`run_attend`), and
failing writes never show in what a session becomes (`failing_writes`).
-/

namespace LanguageServer

namespace Outlet

variable {α : Type}

/-- An outlet after one more attempt to write. -/
def attempted (outlet : Outlet) : Outlet := { outlet with writes := outlet.writes + 1 }

theorem send_cons_of_taken {outlet : Outlet} (takes : outlet.takes outlet.writes = true) (item : α)
    (rest : List α) :
    outlet.send (item :: rest) =
      { outlet.attempted.send rest with taken := item :: (outlet.attempted.send rest).taken } := by
  rw [send, if_pos takes]
  rfl

theorem send_cons_of_refused {outlet : Outlet} (refused : outlet.takes outlet.writes = false)
    (item : α) (rest : List α) : outlet.send (item :: rest) = ⟨outlet.attempted, [], false⟩ := by
  rw [send, if_neg (by simp [refused])]
  rfl

/-- What is taken is what comes first. -/
theorem taken_send_prefix (outlet : Outlet) (items : List α) :
    (outlet.send items).taken <+: items := by
  induction items generalizing outlet with
  | nil => exact List.prefix_refl _
  | cons item rest ih =>
    cases takes : outlet.takes outlet.writes with
    | false =>
      rw [send_cons_of_refused takes]
      exact List.nil_prefix
    | true =>
      rw [send_cons_of_taken takes]
      exact List.prefix_cons_inj item |>.mpr (ih outlet.attempted)

/-- Sending does not come to its end if an attempt on the way is refused. -/
theorem complete_send_eq_false_iff {outlet : Outlet} {items : List α} :
    (outlet.send items).complete = false ↔
      ∃ attempt, outlet.writes ≤ attempt ∧ attempt < (outlet.send items).outlet.writes ∧
        outlet.takes attempt = false := by
  induction items generalizing outlet with
  | nil =>
    simp only [send, Bool.true_eq_false, false_iff]
    rintro ⟨attempt, after, before, -⟩
    omega
  | cons item rest ih =>
    cases takes : outlet.takes outlet.writes with
    | false =>
      rw [send_cons_of_refused takes]
      exact iff_of_true rfl ⟨outlet.writes, Nat.le_refl _, Nat.lt_succ_self _, takes⟩
    | true =>
      rw [send_cons_of_taken takes]
      refine Iff.trans ih (exists_congr fun attempt => ?_)
      constructor
      · rintro ⟨after, before, refused⟩
        exact ⟨Nat.le_of_succ_le after, before, refused⟩
      · rintro ⟨after, before, refused⟩
        refine ⟨Nat.lt_of_le_of_ne after ?_, before, refused⟩
        rintro rfl
        cases takes.symm.trans refused

/-- An outlet that takes nothing any more fails as soon as there is something to send. -/
theorem send_of_dead {outlet : Outlet}
    (dead : ∀ attempt, outlet.writes ≤ attempt → outlet.takes attempt = false) (items : List α) :
    (outlet.send items).taken = [] ∧ ((outlet.send items).complete = false ↔ items ≠ []) := by
  cases items with
  | nil => simp [send]
  | cons item rest =>
    rw [send_cons_of_refused (dead _ (Nat.le_refl _))]
    simp

end Outlet

/-- A session at work, with the outlet it writes to and what was taken there so far. -/
structure Server where
  session : Session
  outlet : Outlet
  taken : List Outgoing

namespace Server

/-- Work that a write which is not taken breaks off. What was done before stays done. -/
abbrev Work := EStateM Session.RunError Server Unit

def update (change : Session → Session) : Work :=
  modify fun server => { server with session := change server.session }

def write (message : Outgoing) : Work := do
  let outlet := (← get).outlet
  modify fun server => { server with outlet := outlet.attempted }
  if outlet.takes outlet.writes then
    modify fun server => { server with taken := server.taken ++ [message] }
  else throw .unwritable

def writeAll : List Outgoing → Work
  | [] => pure ()
  | message :: rest => do
    write message
    writeAll rest

/-- Empties the queue, and then writes what there is to publish, one set after the other. -/
def publishPending : Work := do
  let (sets, workspace) := (← get).session.workspace.publish
  update fun session => { session with workspace := workspace }
  writeAll (sets.map .publication)

def attendRequest (id : Json) (method : String) (params : Json) : Work := do
  let session := (← get).session
  match session.phase with
  | .uninitialized =>
    if method = "initialize" then
      update fun session => session.begin params
      write (.result id Session.greeting)
    else write (.failure id .notInitialized)
  | .running =>
    if method = "shutdown" then
      update fun session => { session with phase := .shuttingDown }
      write (.result id .null)
    else write (session.answer id method params)
  | .shuttingDown => write (.failure id .shuttingDown)

def attendNotification (method : String) (params : Json) : Work := do
  let session := (← get).session
  if method = "exit" then update fun session => { session with exiting := true }
  else if session.phase = .running then
    match session.workspace.notified? method params with
    | some workspace =>
      update fun session => { session with workspace := workspace }
      publishPending
    | none => pure ()
  else pure ()

/-- Takes a message, step by step. -/
def attend (message : Json) : Work :=
  match Incoming.ofJson message with
  | .request id method params => attendRequest id method params
  | .notification method params => attendNotification method params
  | .response => pure ()
  | .invalid => write (.failure .null .invalid)

/-- How work comes out that makes this of the session and then writes these messages. -/
def deliver (server : Server) (session : Session) (messages : List Outgoing) :
    EStateM.Result Session.RunError Server Unit :=
  let delivery := server.outlet.send messages
  let next : Server := ⟨session, delivery.outlet, server.taken ++ delivery.taken⟩
  if delivery.complete then .ok () next else .error .unwritable next

theorem run_update (change : Session → Session) (server : Server) :
    (update change).run server = .ok () { server with session := change server.session } :=
  EStateM.run_modify _ _

theorem run_write_of_taken {server : Server}
    (takes : server.outlet.takes server.outlet.writes = true) (message : Outgoing) :
    (write message).run server =
      .ok () ⟨server.session, server.outlet.attempted, server.taken ++ [message]⟩ := by
  simp [write, takes, Outlet.attempted]

theorem run_write_of_refused {server : Server}
    (refused : server.outlet.takes server.outlet.writes = false) (message : Outgoing) :
    (write message).run server =
      .error .unwritable ⟨server.session, server.outlet.attempted, server.taken⟩ := by
  simp [write, refused, Outlet.attempted]

/-- Writing messages one after the other sends them over the outlet. -/
theorem run_writeAll (messages : List Outgoing) (server : Server) :
    (writeAll messages).run server = server.deliver server.session messages := by
  induction messages generalizing server with
  | nil => simp [writeAll, deliver, Outlet.send]
  | cons message rest ih =>
    rw [writeAll, EStateM.run_bind]
    cases takes : server.outlet.takes server.outlet.writes with
    | false =>
      rw [run_write_of_refused takes]
      simp [deliver, Outlet.send_cons_of_refused takes]
    | true =>
      rw [run_write_of_taken takes]
      simp [ih, deliver, Outlet.send_cons_of_taken takes]

theorem run_write (server : Server) (message : Outgoing) :
    (write message).run server = server.deliver server.session [message] := by
  have single := run_writeAll [message] server
  simpa [writeAll] using single

theorem run_publishPending (server : Server) :
    publishPending.run server =
      server.deliver { server.session with workspace := server.session.workspace.publish.2 }
        (server.session.workspace.publish.1.map .publication) := by
  unfold publishPending
  rw [EStateM.run_bind, EStateM.run_get]
  dsimp only
  rw [EStateM.run_bind, run_update]
  exact run_writeAll _ _

theorem run_attendRequest (server : Server) (id : Json) (method : String) (params : Json) :
    (attendRequest id method params).run server =
      server.deliver (server.session.handleRequest id method params).1
        [(server.session.handleRequest id method params).2] := by
  unfold attendRequest Session.handleRequest
  rw [EStateM.run_bind, EStateM.run_get]
  dsimp only
  cases server.session.phase with
  | uninitialized =>
    by_cases initial : method = "initialize"
    · simp only [if_pos initial]
      rw [EStateM.run_bind, run_update]
      exact run_write _ _
    · simp only [if_neg initial]
      exact run_write _ _
  | running =>
    by_cases final : method = "shutdown"
    · subst final
      simp only [if_true]
      rw [EStateM.run_bind, run_update]
      exact run_write _ _
    · simp only [if_neg final]
      exact run_write _ _
  | shuttingDown => exact run_write _ _

theorem run_attendNotification (server : Server) (method : String) (params : Json) :
    (attendNotification method params).run server =
      server.deliver (server.session.handleNotification method params).1
        ((server.session.handleNotification method params).2.map .publication) := by
  unfold attendNotification Session.handleNotification
  rw [EStateM.run_bind, EStateM.run_get]
  dsimp only
  by_cases leaves : method = "exit"
  · rw [if_pos leaves, if_pos leaves, run_update]
    simp [deliver, Outlet.send]
  · rw [if_neg leaves, if_neg leaves]
    by_cases running : server.session.phase = .running
    · rw [if_pos running, if_pos running]
      cases server.session.workspace.notified? method params with
      | some workspace =>
        dsimp only
        rw [EStateM.run_bind, run_update]
        exact run_publishPending _
      | none => simp [deliver, Outlet.send]
    · rw [if_neg running, if_neg running]
      simp [deliver, Outlet.send]

/-- Taking a message step by step changes the session as handling it does, wherever the work is
broken off, and sends what handling it gives to send. -/
theorem run_attend (server : Server) (message : Json) :
    (attend message).run server =
      server.deliver (server.session.handle message).1 (server.session.handle message).2 := by
  unfold attend Session.handle
  cases Incoming.ofJson message with
  | request id method params => exact run_attendRequest server id method params
  | notification method params => exact run_attendNotification server method params
  | response => simp [deliver, Outlet.send]
  | invalid => exact run_write server _

/-- How a message comes out, with the server after it. -/
def outcome (server : Server) (message : Json) : Except Session.RunError Unit × Server :=
  match (attend message).run server with
  | .ok _ next => (.ok (), next)
  | .error error next => (.error error, next)

theorem outcome_eq (server : Server) (message : Json) :
    server.outcome message =
      let delivery := server.outlet.send (server.session.handle message).2
      (if delivery.complete then .ok () else .error .unwritable,
        ⟨(server.session.handle message).1, delivery.outlet, server.taken ++ delivery.taken⟩) := by
  unfold outcome
  rw [run_attend, deliver]
  dsimp only
  cases (server.outlet.send (server.session.handle message).2).complete <;> rfl

theorem outcome_eq_error_iff {server : Server} {message : Json} :
    (∃ error, (server.outcome message).1 = .error error) ↔
      (server.outlet.send (server.session.handle message).2).complete = false := by
  rw [outcome_eq]
  cases complete : (server.outlet.send (server.session.handle message).2).complete <;>
    simp [complete]

/-- With a working outlet a message comes out well, and all that there is to send is taken. -/
theorem outcome_of_works {server : Server} (works : server.outlet.Works) (message : Json) :
    (server.outcome message).1 = .ok () ∧
      (server.outcome message).2.taken = server.taken ++ (server.session.handle message).2 := by
  obtain ⟨-, taken, complete⟩ := works.send (server.session.handle message).2
  rw [outcome_eq]
  simp [taken, complete]

/-- The sessions after each of some messages. A server that has failed at one goes on with the
next. -/
def course (server : Server) : List Json → List Session
  | [] => []
  | message :: rest =>
    let next := (server.outcome message).2
    next.session :: next.course rest

/-- The sessions on the way do not depend on what is written. -/
theorem course_eq (server : Server) (messages : List Json) :
    server.course messages =
      (List.range messages.length).map fun count =>
        server.session.after (messages.take (count + 1)) := by
  induction messages generalizing server with
  | nil => rfl
  | cons message rest ih =>
    rw [course, ih, outcome_eq, List.length_cons, List.range_succ_eq_map]
    simp [Session.after_cons]

end Server

namespace Session

theorem session_converse (session : Session) (outlet : Outlet) (messages : List Json) :
    (session.converse outlet messages).1 = session.after messages := by
  induction messages generalizing session outlet with
  | nil => rfl
  | cons message rest ih => exact ih _ _

/-- A run over any outlet handles the first ones of the messages that it handles over a working
one. -/
theorem handled_prefix (session : Session) (outlet : Outlet) (input : List UInt8)
    {working : Outlet} (works : working.Works) :
    session.handled outlet input <+: session.handled working input := by
  fun_induction handled session outlet input generalizing working with
  | case1 | case2 | case3 | case4 => exact List.nil_prefix
  | case5 session outlet input active nonempty next sent served delivery =>
    rename_i ih
    obtain ⟨goesOn, -, complete⟩ := works.send sent
    have whole : session.handled working input =
        (Frame.read input).1.message?.toList ++
          next.handled (working.send sent).outlet (Frame.read input).2 := by
      rw [handled, if_neg active, dif_neg nonempty, served]
      dsimp only
      rw [if_pos complete]
    rw [whole, List.prefix_append_right_inj]
    split
    · exact ih goesOn
    · exact List.nil_prefix

end Session

/-- Whatever an outlet takes, a message leaves the session as it would with a working outlet, and so
does every one of many messages, where a server that has failed at one goes on with the next. A
message ends in an error if some attempt to write is refused, and then only; what is taken is what
comes first. Over an outlet that takes nothing this is so just when over a working one something
would be sent. A run, which does end with the first write that fails, leaves the session that the
same first messages leave. -/
theorem failing_writes (session : Session) (outlet : Outlet) (taken : List Outgoing) :
    let failing : Server := ⟨session, outlet, taken⟩
    let ideal : Server := ⟨session, .working, []⟩
    (∀ message,
      let actual := failing.outcome message
      let intended := ideal.outcome message
      intended.1 = .ok () ∧ intended.2.taken = (session.handle message).2 ∧
      intended.2.session = (session.handle message).1 ∧
      actual.2.session = intended.2.session ∧
      ((∃ error, actual.1 = .error error) ↔
        ∃ attempt, outlet.writes ≤ attempt ∧ attempt < actual.2.outlet.writes ∧
          outlet.takes attempt = false) ∧
      (∃ sent, actual.2.taken = taken ++ sent ∧ sent <+: intended.2.taken) ∧
      ((∀ attempt, outlet.writes ≤ attempt → outlet.takes attempt = false) →
        actual.2.taken = taken ∧
        ((∃ error, actual.1 = .error error) ↔ intended.2.taken ≠ []))) ∧
    (∀ messages, failing.course messages = ideal.course messages ∧
      failing.course messages = (List.range messages.length).map fun count =>
        session.after (messages.take (count + 1))) ∧
    (∀ messages, (session.converse outlet messages).1 = session.after messages) ∧
    ∀ input, (session.run outlet input).session = session.after (session.handled outlet input) ∧
      session.handled outlet input <+: session.handled .working input := by
  intro failing ideal
  refine ⟨fun message => ?_, fun messages => ?_, session.session_converse outlet, fun input => ?_⟩
  · intro actual intended
    have works : ideal.outlet.Works := Outlet.works_working
    obtain ⟨well, whole⟩ := Server.outcome_of_works works message
    have failed : (∃ error, actual.1 = .error error) ↔
        (outlet.send (session.handle message).2).complete = false := Server.outcome_eq_error_iff
    have after : actual.2 = ⟨(session.handle message).1,
        (outlet.send (session.handle message).2).outlet,
        taken ++ (outlet.send (session.handle message).2).taken⟩ :=
      congrArg Prod.snd (Server.outcome_eq failing message)
    have ends : intended.2.session = (session.handle message).1 := by
      rw [show intended = _ from Server.outcome_eq ideal message]
    have given : intended.2.taken = (session.handle message).2 := whole.trans (List.nil_append _)
    rw [failed, after, given, ends]
    refine ⟨well, rfl, rfl, rfl, Outlet.complete_send_eq_false_iff,
      ⟨_, rfl, Outlet.taken_send_prefix _ _⟩, fun dead => ?_⟩
    obtain ⟨nothing, fails⟩ := Outlet.send_of_dead dead (session.handle message).2
    exact ⟨by rw [nothing, List.append_nil], fails⟩
  · rw [Server.course_eq, Server.course_eq]
    exact ⟨rfl, rfl⟩
  · exact ⟨session.session_run outlet input,
      session.handled_prefix outlet input Outlet.works_working⟩

end LanguageServer
