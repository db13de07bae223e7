import LanguageServer.Outlet
import LanguageServer.Session
/-!
# Messages by their members

The messages of both sides as JSON values, told by the members they have: `Requests`, `Notifies`,
`Responds` and `Meaningless` part what a client may send (`kinds`), and `Answers`, `Refuses` and
`Publishes` say what the server sends. What is read from a message (`Incoming.ofJson_of_requests`
and so on) and what is sent (`answers_result` and so on) follow from the members alone.
-/

namespace LanguageServer

namespace Json

theorem get?_set (target value : Json) (name key : String) :
    (target.set name value).get? key = if key = name then some value else target.get? key := by
  cases target with
  | obj members => exact Table.lookup_insert key name value members
  | null | bool | int | float | str | arr => rfl

/-! ## What a client sends -/

def Requests (message id : Json) (method : String) : Prop :=
  message.get? "method" = some (.str method) ∧ message.get? "id" = some id

def Notifies (message : Json) (method : String) : Prop :=
  message.get? "method" = some (.str method) ∧ message.get? "id" = none

section

variable {message id other : Json} {method name : String}

theorem Requests.not_notifies (asked : message.Requests id method) : ¬message.Notifies name :=
  fun told => by cases asked.2.symm.trans told.2

theorem Requests.method_eq (first : message.Requests id method)
    (second : message.Requests other name) : method = name := by
  obtain ⟨⟩ := first.1.symm.trans second.1
  rfl

theorem Notifies.method_eq (first : message.Notifies method) (second : message.Notifies name) :
    method = name := by
  obtain ⟨⟩ := first.1.symm.trans second.1
  rfl

end

/-- A response to the server, which is told by its members only if it names no method. -/
def Responds (message : Json) : Prop :=
  (∀ method, message.get? "method" ≠ some (.str method)) ∧ (message.get? "id").isSome ∧
    ((message.get? "result").isSome ∨ (message.get? "error").isSome)

/-- Neither a request nor a notification nor a response. -/
def Meaningless (message : Json) : Prop :=
  (∀ method, message.get? "method" ≠ some (.str method)) ∧
    ¬((message.get? "id").isSome ∧
      ((message.get? "result").isSome ∨ (message.get? "error").isSome))

/-- The parameters of a message, null if it has none. -/
def parameters (message : Json) : Json := (message.get? "params").getD .null

theorem kinds (message : Json) :
    (∃ id method, message.Requests id method) ∨ (∃ method, message.Notifies method) ∨
      message.Responds ∨ message.Meaningless := by
  by_cases named : ∃ method, message.get? "method" = some (.str method)
  · obtain ⟨method, named⟩ := named
    cases identified : message.get? "id" with
    | none => exact .inr (.inl ⟨method, named, identified⟩)
    | some id => exact .inl ⟨id, method, named, identified⟩
  · have nameless := not_exists.mp named
    by_cases responds : (message.get? "id").isSome ∧
        ((message.get? "result").isSome ∨ (message.get? "error").isSome)
    · exact .inr (.inr (.inl ⟨nameless, responds⟩))
    · exact .inr (.inr (.inr ⟨nameless, responds⟩))

theorem bind_str?_eq_some {value : Option Json} {s : String} :
    value.bind str? = some s ↔ value = some (.str s) := by
  cases value with
  | none => simp
  | some value => cases value <;> simp [str?]

theorem bind_str?_eq_none {value : Option Json} :
    value.bind str? = none ↔ ∀ s, value ≠ some (.str s) := by
  simp only [Option.eq_none_iff_forall_ne_some, Ne, bind_str?_eq_some]

/-! ## What the server sends -/

/-- A response under an id, with either a result or an error. -/
def Answers (reply id : Json) : Prop :=
  reply.get? "method" = none ∧ reply.get? "id" = some id ∧
    ((reply.get? "result").isSome ↔ reply.get? "error" = none)

/-- A response under an id with the error of a code. -/
def Refuses (reply id : Json) (code : Int) : Prop :=
  reply.Answers id ∧ reply.at? ["error", "code"] = some (.int code)

/-- A notification that publishes diagnostics. -/
def Publishes (message : Json) : Prop :=
  message.Notifies "textDocument/publishDiagnostics" ∧ message.get? "result" = none ∧
    message.get? "error" = none

theorem Refuses.get?_result {reply id : Json} {code : Int} (refuses : reply.Refuses id code) :
    reply.get? "result" = none := by
  obtain ⟨⟨-, -, either⟩, error⟩ := refuses
  have failed : ¬reply.get? "error" = none := by
    intro absent
    rw [at?, absent] at error
    cases error
  simpa using mt either.mp failed

theorem Answers.not_publishes {reply id : Json} (answers : reply.Answers id) :
    ¬reply.Publishes := by
  intro publishes
  cases answers.1.symm.trans publishes.1.1

end Json

namespace Incoming

variable {message id : Json} {method : String}

theorem ofJson_of_requests (h : message.Requests id method) :
    ofJson message = request id method message.parameters := by
  unfold ofJson
  rw [h.1, h.2]
  rfl

theorem ofJson_of_notifies (h : message.Notifies method) :
    ofJson message = notification method message.parameters := by
  unfold ofJson
  rw [h.1, h.2]
  rfl

theorem ofJson_of_responds (h : message.Responds) : ofJson message = response := by
  obtain ⟨nameless, identified, outcome⟩ := h
  obtain ⟨id, identified⟩ := Option.isSome_iff_exists.mp identified
  unfold ofJson
  rw [Json.bind_str?_eq_none.mpr nameless, identified]
  simp [outcome]

theorem ofJson_of_meaningless (h : message.Meaningless) : ofJson message = invalid := by
  obtain ⟨nameless, unresponsive⟩ := h
  unfold ofJson
  rw [Json.bind_str?_eq_none.mpr nameless]
  cases identified : message.get? "id" with
  | none => rfl
  | some id =>
    rw [identified] at unresponsive
    simpa using unresponsive

end Incoming

namespace Outgoing

theorem answers_result (id value : Json) : (result id value).toJson.Answers id := by
  simp [Json.Answers, toJson, resultJson, Json.object, Json.get?, Table.ofList,
    Table.lookup_insert]

theorem get?_result (id value : Json) : (result id value).toJson.get? "result" = some value := by
  simp [toJson, resultJson, Json.object, Json.get?, Table.ofList, Table.lookup_insert]

theorem refuses_failure (id : Json) (error : RequestError) :
    (failure id error).toJson.Refuses id error.code := by
  simp [Json.Refuses, Json.Answers, toJson, failureJson, Json.object, Json.get?, Json.at?,
    Table.ofList, Table.lookup_insert]

theorem publishes_publication (set : Publication) : (publication set).toJson.Publishes := by
  simp [Json.Publishes, Json.Notifies, toJson, notificationJson, Json.object, Json.get?,
    Table.ofList, Table.lookup_insert]

end Outgoing

namespace Outlet

variable {α : Type}

/-- An outlet that takes all that is written to it from now on. -/
def Works (outlet : Outlet) : Prop := ∀ n, outlet.writes ≤ n → outlet.takes n = true

theorem works_working : working.Works := fun _ _ => rfl

/-- A working outlet takes everything and goes on working. -/
theorem Works.send {outlet : Outlet} (h : outlet.Works) (items : List α) :
    (outlet.send items).outlet.Works ∧ (outlet.send items).taken = items ∧
      (outlet.send items).complete = true := by
  induction items generalizing outlet with
  | nil => exact ⟨h, rfl, rfl⟩
  | cons item rest ih =>
    have next : Works { outlet with writes := outlet.writes + 1 } :=
      fun n later => h n (Nat.le_of_succ_le later)
    obtain ⟨works, taken, complete⟩ := ih next
    unfold Outlet.send
    rw [if_pos (h outlet.writes (Nat.le_refl _))]
    exact ⟨works, congrArg (item :: ·) taken, complete⟩

end Outlet

end LanguageServer
