import LanguageServer.Proofs.Block
import LanguageServer.Proofs.Conversation
import LanguageServer.Session.Run
/-!
# Sessions over a stream

A session over a stream serves the frames of the stream one after another (`run_frames`).
-/

namespace LanguageServer

/-- A header block and the body of the length that it announces. -/
structure Frame where
  block : Frame.Block
  body : List UInt8
  announced : block.length? = some body.length
  fits : body.length ≤ Frame.maxLength

namespace Frame

def bytes (frame : Frame) : List UInt8 := frame.block.bytes ++ frame.body

/-- The message that a frame carries, if its body is one. -/
def value? (frame : Frame) : Option Json := (Utf8.decode? frame.body).bind Json.parse?

/-- A frame that carries the notification to exit. -/
def Exits (frame : Frame) : Prop := ∃ message, frame.value? = some message ∧ message.Notifies "exit"

/-- A frame is read as a whole, and nothing behind it. -/
theorem read_bytes (frame : Frame) (rest : List UInt8) :
    read (frame.bytes ++ rest) = (readBody frame.body, rest) := by
  have fits := Nat.not_lt.mpr frame.fits
  have whole : ¬(frame.body ++ rest).length < frame.body.length := by
    rw [List.length_append]
    omega
  unfold read bytes
  rw [List.append_assoc, readBlock_bytes, frame.announced]
  dsimp only
  rw [if_neg fits, if_neg whole, List.take_left, List.drop_left]

/-- A body that is not UTF-8, or empty, carries no message. -/
theorem value?_eq_none {frame : Frame} (h : Utf8.decode? frame.body = none ∨ frame.body = []) :
    frame.value? = none := by
  unfold value?
  rcases h with undecodable | empty
  · rw [undecodable]
    rfl
  · have nothing : Utf8.decode? frame.body = some [] :=
      Utf8.decode?_eq_some_iff.mpr empty
    rw [nothing]
    exact Json.Reader.run_nil _ _

theorem rest_of_readBlock_ended {length : Option Nat} {input rest : List UInt8}
    (h : readBlock length input = (.ended, rest)) : rest = [] := by
  fun_induction readBlock length input with
  | case1 =>
    cases h
    rfl
  | case2 _ _ _ _ _ ih => exact ih h
  | case3 => cases h
  | case4 => cases h

/-- Reading ends where no header block is complete. -/
theorem readBlock_of_read_ended {input : List UInt8} (h : (read input).1 = .ended) :
    readBlock none input = (.ended, (read input).2) := by
  unfold read at h ⊢
  split at h
  · rename_i rest block
    exact block
  · cases h
  · cases h
  · split at h
    · cases h
    · split at h
      · cases h
      · unfold readBody at h
        split at h <;> cases h

/-- Reading ends only at the end of the stream. -/
theorem rest_of_read_ended {input : List UInt8} (h : (read input).1 = .ended) :
    (read input).2 = [] :=
  rest_of_readBlock_ended (readBlock_of_read_ended h)

theorem bytes_append_ne_nil (frame : Frame) (rest : List UInt8) : frame.bytes ++ rest ≠ [] := by
  simp [bytes, Block.bytes, Block.chars]

end Frame

namespace Session

/-- What a session makes of a frame: it handles the message, or answers what is none. -/
def receive (session : Session) (frame : Frame) : Session × List Outgoing :=
  match frame.value? with
  | some message => session.handle message
  | none => (session, [.failure .null .malformed])

/-- What a session makes of frames, one after another. -/
def receiveAll (session : Session) : List Frame → Session × List Outgoing
  | [] => (session, [])
  | frame :: rest =>
    let (next, sent) := session.receive frame
    let (last, later) := next.receiveAll rest
    (last, sent ++ later)

theorem exiting_receive (session : Session) (frame : Frame) :
    (session.receive frame).1.exiting = true ↔ session.exiting = true ∨ frame.Exits := by
  unfold receive Frame.Exits
  cases frame.value? with
  | none => simp
  | some message => simp [exiting_handle]

theorem turn_readBody (session : Session) (frame : Frame) :
    session.turn (Frame.readBody frame.body) =
      .handled (session.receive frame).1 (session.receive frame).2 := by
  unfold Frame.readBody receive Frame.value?
  cases (Utf8.decode? frame.body).bind Json.parse? with
  | none => rfl
  | some message => rfl

/-! ## Runs -/

theorem run_of_exiting {session : Session} (exiting : session.exiting = true) (outlet : Outlet)
    (input : List UInt8) : session.run outlet input = ⟨.ok session.isClean, session, [], input⟩ := by
  rw [run, if_pos exiting]

theorem run_of_active {session : Session} (active : ¬session.exiting = true) (outlet : Outlet)
    {input : List UInt8} (nonempty : input ≠ []) :
    session.run outlet input =
      match session.turn (Frame.read input).1 with
      | .ended => ⟨.ok session.isClean, session, [], (Frame.read input).2⟩
      | .failed error => ⟨.error (.unreadable error), session, [], (Frame.read input).2⟩
      | .handled next messages =>
        if (outlet.send messages).complete then
          (next.run (outlet.send messages).outlet (Frame.read input).2).prepend
            (outlet.send messages).taken
        else ⟨.error .unwritable, next, (outlet.send messages).taken, (Frame.read input).2⟩ := by
  rewrite [run, if_neg active, dif_neg nonempty]
  rfl

/-- With a working outlet a session goes on after each message with what was not read. -/
theorem run_of_handled {session next : Session} (active : ¬session.exiting = true)
    {outlet : Outlet} (works : outlet.Works) {input : List UInt8} (nonempty : input ≠ [])
    {messages : List Outgoing}
    (handled : session.turn (Frame.read input).1 = .handled next messages) :
    session.run outlet input =
      (next.run (outlet.send messages).outlet (Frame.read input).2).prepend messages := by
  obtain ⟨-, taken, complete⟩ := works.send messages
  rw [run_of_active active outlet nonempty, handled]
  dsimp only
  rw [if_pos complete, taken]

/-- Which of two working outlets a session has makes no difference. -/
theorem run_congr (session : Session) {a : Outlet} (ha : a.Works) (input : List UInt8) :
    ∀ {b : Outlet}, b.Works → session.run a input = session.run b input := by
  -- Along the run of the one outlet, for every other: both count their writes.
  fun_induction run session a input with
  | case1 session a input exiting =>
    intro b _
    rw [run_of_exiting exiting]
  | case2 session a active =>
    intro b _
    rw [run, if_neg active, dif_pos rfl]
  | case3 session a input active nonempty ended =>
    intro b _
    rw [run_of_active active b nonempty, ended]
  | case4 session a input active nonempty error failed =>
    intro b _
    rw [run_of_active active b nonempty, failed]
  | case5 session a input active nonempty next messages handled delivery complete ih =>
    intro b hb
    have taken : delivery.taken = messages := (ha.send messages).2.1
    rw [run_of_handled active hb nonempty handled, ih (ha.send messages).1 (hb.send messages).1,
      taken]
  | case6 session a input active nonempty next messages handled delivery incomplete =>
    exact absurd (ha.send messages).2.2 incomplete

/-- A session that is served a frame goes on behind it. -/
theorem run_bytes_append {session : Session} (active : ¬session.exiting = true) (frame : Frame)
    (rest : List UInt8) :
    session.run .working (frame.bytes ++ rest) =
      ((session.receive frame).1.run .working rest).prepend (session.receive frame).2 := by
  have handled : session.turn (Frame.read (frame.bytes ++ rest)).1 =
      .handled (session.receive frame).1 (session.receive frame).2 := by
    rw [frame.read_bytes, turn_readBody]
  obtain ⟨goesOn, -, -⟩ := Outlet.works_working.send (session.receive frame).2
  rw [run_of_handled active Outlet.works_working (frame.bytes_append_ne_nil rest) handled,
    frame.read_bytes, run_congr _ goesOn rest Outlet.works_working]

theorem Outcome.prepend_prepend (first second : List Outgoing) (outcome : Outcome) :
    (outcome.prepend second).prepend first = outcome.prepend (first ++ second) := by
  simp [Outcome.prepend]

/-- A session goes on behind frames of which none carries the notification to exit. -/
theorem run_flatMap_append {session : Session} (active : ¬session.exiting = true)
    {frames : List Frame} (stays : ∀ frame ∈ frames, ¬frame.Exits) (rest : List UInt8) :
    session.run .working (frames.flatMap Frame.bytes ++ rest) =
      ((session.receiveAll frames).1.run .working rest).prepend
        (session.receiveAll frames).2 := by
  induction frames generalizing session with
  | nil => rfl
  | cons frame others ih =>
    have still : ¬(session.receive frame).1.exiting = true := by
      rw [exiting_receive, not_or]
      exact ⟨active, stays frame List.mem_cons_self⟩
    have tail := ih still fun other member => stays other (List.mem_cons_of_mem _ member)
    rw [List.flatMap_cons, List.append_assoc, run_bytes_append active, tail,
      Outcome.prepend_prepend]
    rfl

theorem receiveAll_concat (session : Session) (frames : List Frame) (frame : Frame) :
    session.receiveAll (frames ++ [frame]) =
      (((session.receiveAll frames).1.receive frame).1,
        (session.receiveAll frames).2 ++ ((session.receiveAll frames).1.receive frame).2) := by
  induction frames generalizing session with
  | nil => simp [receiveAll]
  | cons first rest ih => simp [receiveAll, ih]

theorem exiting_receiveAll (session : Session) (frames : List Frame) :
    (session.receiveAll frames).1.exiting = true ↔
      session.exiting = true ∨ ∃ frame ∈ frames, frame.Exits := by
  induction frames generalizing session with
  | nil => simp [receiveAll]
  | cons frame rest ih =>
    show ((session.receive frame).1.receiveAll rest).1.exiting = true ↔ _
    rw [ih, exiting_receive, or_assoc]
    simp

/-- A session ends right behind the first frame that carries the notification to exit. -/
theorem run_of_exits {session : Session} (active : ¬session.exiting = true)
    {frames : List Frame} (stays : ∀ frame ∈ frames, ¬frame.Exits) {frame : Frame}
    (exits : frame.Exits) (rest : List UInt8) :
    session.run .working (frames.flatMap Frame.bytes ++ (frame.bytes ++ rest)) =
      ⟨.ok (session.receiveAll (frames ++ [frame])).1.isClean,
        (session.receiveAll (frames ++ [frame])).1, (session.receiveAll (frames ++ [frame])).2,
        rest⟩ := by
  have still : ¬(session.receiveAll frames).1.exiting = true := by
    rw [exiting_receiveAll, not_or]
    exact ⟨active, fun ⟨other, member, leaves⟩ => stays other member leaves⟩
  have leaves : ((session.receiveAll frames).1.receive frame).1.exiting = true :=
    (exiting_receive _ frame).mpr (.inr exits)
  rw [run_flatMap_append active stays, run_bytes_append still, Outcome.prepend_prepend,
    run_of_exiting leaves, receiveAll_concat]
  simp [Outcome.prepend]

/-! ## How runs end -/

theorem turn_eq_ended_iff {session : Session} {reading : Reading} :
    session.turn reading = .ended ↔ reading = .ended := by
  unfold turn
  constructor
  · intro h
    split at h
    · rfl
    all_goals cases h
  · rintro rfl
    rfl

/-- A run without error ends where the client asks to exit or the stream ends, and then tells
whether the session was shut down before. -/
theorem run_eq_ok {session : Session} {outlet : Outlet} {input : List UInt8} {clean : Bool}
    (h : (session.run outlet input).result = .ok clean) :
    clean = (session.run outlet input).session.isClean ∧
      ((session.run outlet input).session.exiting = true ∨
        (session.run outlet input).unread = []) := by
  fun_induction run session outlet input with
  | case1 session outlet input exiting =>
    cases h
    exact ⟨rfl, .inl exiting⟩
  | case2 session outlet active =>
    cases h
    exact ⟨rfl, .inr rfl⟩
  | case3 session outlet input active nonempty ended =>
    cases h
    exact ⟨rfl, .inr (Frame.rest_of_read_ended (turn_eq_ended_iff.mp ended))⟩
  | case4 => cases h
  | case5 session outlet input active nonempty next messages handled delivery complete ih =>
    exact ih h
  | case6 => cases h

/-- With a working outlet only reading can fail. -/
theorem run_ne_unwritable (session : Session) {outlet : Outlet} (works : outlet.Works)
    (input : List UInt8) : (session.run outlet input).result ≠ .error .unwritable := by
  fun_induction run session outlet input with
  | case1 => simp
  | case2 => simp
  | case3 => simp
  | case4 => simp
  | case5 session outlet input active nonempty next messages handled delivery complete ih =>
    exact ih (works.send messages).1
  | case6 session outlet input active nonempty next messages handled delivery incomplete =>
    exact absurd (works.send messages).2.2 incomplete

/-- Whatever is read, unless it ends the session, takes at least one byte. -/
theorem length_lt_of_turn {session next : Session} {input : List UInt8} {messages : List Outgoing}
    (h : session.turn (Frame.read input).1 = .handled next messages) :
    (Frame.read input).2.length < input.length := by
  apply Frame.length_lt_of_read
  rintro rfl
  rw [Frame.read_nil] at h
  cases h

/-- A session that was not asked to exit serves the frames of a stream in their order. The block of
a frame is just what the reader takes as one, whatever follows. A body that is a message is handled;
any other is answered by one error without an id, and changes nothing. Up to the first frame that
carries the notification to exit the session goes on behind each frame as it would on the rest
alone; right behind that frame it ends. Every reading that does not end a session takes a byte. With
a working outlet only reading can fail, and a run that does not fail tells whether the session was
shut down, at its exit or at the end of the stream. -/
theorem run_frames {session : Session} (active : session.exiting = false) (frames : List Frame)
    (rest : List UInt8) :
    let outcome := session.run .working (frames.flatMap Frame.bytes ++ rest)
    (∀ bytes length, (∀ more, Frame.readBlock none (bytes ++ more) = (.complete length, more)) ↔
      ∃ block : Frame.Block, block.bytes = bytes ∧ block.length? = length) ∧
    (∀ (state : Session) (frame : Frame),
      (∀ message, frame.value? = some message → state.receive frame = state.handle message) ∧
      (frame.value? = none →
        ∃ reply, state.receive frame = (state, [reply]) ∧ reply.toJson.Refuses .null (-32700)) ∧
      (Utf8.decode? frame.body = none ∨ frame.body = [] → frame.value? = none)) ∧
    ((∀ frame ∈ frames, ¬frame.Exits) →
      outcome = ((session.receiveAll frames).1.run .working rest).prepend
        (session.receiveAll frames).2) ∧
    (∀ before frame behind, frames = before ++ frame :: behind →
      (∀ earlier ∈ before, ¬earlier.Exits) → frame.Exits →
      let last := session.receiveAll (before ++ [frame])
      outcome = ⟨.ok last.1.isClean, last.1, last.2, behind.flatMap Frame.bytes ++ rest⟩) ∧
    (∀ (state next : Session) input messages,
      state.turn (Frame.read input).1 = .handled next messages →
      (Frame.read input).2.length < input.length) ∧
    (∀ (state : Session) input, (state.run .working input).result ≠ .error .unwritable) ∧
    (∀ (state : Session) input clean, (state.run .working input).result = .ok clean →
      (clean = true ↔ (state.run .working input).session.phase = .shuttingDown) ∧
      ((state.run .working input).session.exiting = true ∨
        (state.run .working input).unread = [])) := by
  have active : ¬session.exiting = true := by rw [active]; exact Bool.false_ne_true
  refine ⟨fun _ _ => Frame.accepts_iff, ?_, fun stays => run_flatMap_append active stays rest, ?_,
    fun _ _ _ _ => length_lt_of_turn, fun state => run_ne_unwritable state Outlet.works_working, ?_⟩
  · intro state frame
    refine ⟨fun message carried => ?_, fun malformed => ?_, Frame.value?_eq_none⟩
    · rw [receive, carried]
    · exact ⟨.failure .null .malformed, by rw [receive, malformed],
        Outgoing.refuses_failure .null .malformed⟩
  · rintro before frame behind rfl stays exits
    rw [List.flatMap_append, List.flatMap_cons, List.append_assoc, List.append_assoc]
    exact run_of_exits active stays exits (behind.flatMap Frame.bytes ++ rest)
  · intro state input clean finished
    obtain ⟨rfl, ends⟩ := run_eq_ok finished
    exact ⟨by simp [isClean], ends⟩

/-- The body of a notification to exit. -/
def exitBody : List UInt8 := Utf8.encode "\x7b\"method\":\"exit\"\x7d".toList

theorem length_exitBody : exitBody.length = 17 := by decide

/-- A frame with two header lines that carries the notification to exit. -/
def exitFrame : Frame where
  block := ⟨["Content-Length: 17".toList, "Content-Type: x".toList], 1, by simp, by simp⟩
  body := exitBody
  announced := by decide
  fits := by rw [length_exitBody]; decide

/-- A frame with an empty body, which is no message. -/
def emptyFrame : Frame where
  block := ⟨["content-length:+0".toList], 0, by simp, by simp⟩
  body := []
  announced := by decide
  fits := Nat.zero_le _

theorem value?_exitFrame : exitFrame.value? = some (.obj [("method", .str "exit")]) := by
  unfold Frame.value? exitFrame exitBody
  rw [Utf8.decode?_encode]
  iterate 5 refine (Json.Reader.run_of_next? rfl rfl).trans ?_
  exact Json.Reader.run_nil _ _

/-- An empty frame is answered and the session goes on; behind the notification to exit nothing is
read. -/
theorem run_frames_exit :
    new.exiting = false ∧
      let outcome := new.run .working
        ([emptyFrame, exitFrame, emptyFrame].flatMap Frame.bytes ++ [120])
      outcome.result = .ok false ∧ outcome.sent = [.failure .null .malformed] ∧
        outcome.unread = emptyFrame.bytes ++ [120] := by
  refine ⟨rfl, ?_⟩
  obtain ⟨-, -, -, ends, -⟩ :=
    run_frames (rfl : new.exiting = false) [emptyFrame, exitFrame, emptyFrame] [120]
  have empty : emptyFrame.value? = none := Frame.value?_eq_none (.inr rfl)
  have stays : ∀ earlier ∈ [emptyFrame], ¬earlier.Exits := by
    rintro earlier member ⟨message, carried, -⟩
    rw [List.mem_singleton.mp member, empty] at carried
    cases carried
  have outcome := ends [emptyFrame] exitFrame [emptyFrame] rfl stays
    ⟨_, value?_exitFrame, rfl, rfl⟩
  have last : new.receiveAll ([emptyFrame] ++ [exitFrame]) =
      ({ new with exiting := true }, [.failure .null .malformed]) := by
    simp only [List.singleton_append, receiveAll, receive, empty, value?_exitFrame]
    rfl
  rw [last] at outcome
  rw [outcome]
  simp [isClean, new]

end Session

end LanguageServer
