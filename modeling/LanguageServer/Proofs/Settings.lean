import LanguageServer.Proofs.Lifecycle
import LanguageServer.Proofs.Notification
/-!
# Settings in force

Each setting of a session is what the last options value gives that gives it at all, among those
that count: the options with which the client began and the new settings that were handled while the
session ran (`effective_config`). `Options.Reads` says which values are options, and `config_handle`
what one message makes of the settings.
-/

namespace LanguageServer

/-- What a member says about one option: its absence and null leave it open, a truth value sets
it. -/
inductive Options.Flag : Option Json → Option Bool → Prop
  | absent : Flag none none
  | null : Flag (some .null) none
  | given (setting : Bool) : Flag (some (.bool setting)) (some setting)

/-- The options that a value stands for: an object has them by their names, beside any other
members, and an array of at most two items by their places. -/
inductive Options.Reads : Json → Options → Prop
  | object {members : List (String × Json)} {snippets diagnostics : Option Bool} :
      Flag (Table.lookup "snippetSupport" members) snippets →
      Flag (Table.lookup "diagnosticsEnabled" members) diagnostics →
      Reads (.obj members) ⟨snippets, diagnostics⟩
  | array {items : List Json} {snippets diagnostics : Option Bool} : items.length ≤ 2 →
      Flag items[0]? snippets → Flag items[1]? diagnostics →
      Reads (.arr items) ⟨snippets, diagnostics⟩

/-- A value gives a flag if it is an options value that sets it. -/
def Json.Gives (value : Json) (flag : Options → Option Bool) (setting : Bool) : Prop :=
  ∃ options, Options.Reads value options ∧ flag options = some setting

/-- A setting is what the last one of some values gives that gives the flag, and the fallback if
none of them does. -/
def Settled (flag : Options → Option Bool) (values : List Json) (fallback setting : Bool) : Prop :=
  (∃ earlier value later, values = earlier ++ value :: later ∧ value.Gives flag setting ∧
    ∀ other ∈ later, ∀ b, ¬other.Gives flag b) ∨
  (∀ value ∈ values, ∀ b, ¬value.Gives flag b) ∧ setting = fallback

namespace Options

theorem flag?_eq_some_iff {member : Option Json} {flag : Option Bool} :
    flag? member = some flag ↔ Flag member flag := by
  constructor
  · intro read
    unfold flag? at read
    split at read
    · cases read
      exact .absent
    · cases read
      exact .null
    · cases read
      exact .given _
    · cases read
  · rintro (_ | _ | _) <;> rfl

theorem ofJson?_eq_some_iff {value : Json} {options : Options} :
    ofJson? value = some options ↔ Reads value options := by
  constructor
  · intro read
    unfold ofJson? at read
    split at read
    · simp only [Option.bind_eq_bind, Option.bind_eq_some_iff, Option.some.injEq] at read
      obtain ⟨snippets, first, diagnostics, second, rfl⟩ := read
      exact .object (flag?_eq_some_iff.mp first) (flag?_eq_some_iff.mp second)
    · split at read
      · cases read
      · simp only [Option.bind_eq_bind, Option.bind_eq_some_iff, Option.some.injEq] at read
        obtain ⟨snippets, first, diagnostics, second, rfl⟩ := read
        exact .array (by omega) (flag?_eq_some_iff.mp first) (flag?_eq_some_iff.mp second)
    · cases read
  · intro reads
    cases reads with
    | object first second =>
      simp [ofJson?, flag?_eq_some_iff.mpr first, flag?_eq_some_iff.mpr second]
    | array short first second =>
      have fits : ¬2 < _ := Nat.not_lt.mpr short
      simp [ofJson?, fits, flag?_eq_some_iff.mpr first, flag?_eq_some_iff.mpr second]

end Options

/-! ## One value after another -/

section

variable {flag : Options → Option Bool} {setting : Config → Bool}
  (law : ∀ (config : Config) (options : Options),
    setting (config.merge options) = (flag options).getD (setting config))

include law

theorem setting_override_of_gives {value : Json} {b : Bool} (gives : value.Gives flag b)
    (config : Config) : setting (config.override value) = b := by
  obtain ⟨options, reads, given⟩ := gives
  unfold Config.override
  rw [Options.ofJson?_eq_some_iff.mpr reads]
  dsimp only
  rw [law, given, Option.getD_some]

/-- A value that is no options value, or leaves the flag open, leaves the setting as it is. -/
theorem setting_override_of_not_gives {value : Json} (silent : ∀ b, ¬value.Gives flag b)
    (config : Config) : setting (config.override value) = setting config := by
  unfold Config.override
  cases read : Options.ofJson? value with
  | none => rfl
  | some options =>
    have reads := Options.ofJson?_eq_some_iff.mp read
    cases given : flag options with
    | none =>
      dsimp only
      rw [law, given, Option.getD_none]
    | some b => exact absurd ⟨options, reads, given⟩ (silent b)

/-- Overriding by one value after the other leaves what the last one gives that gives anything. -/
theorem settled_foldl (config : Config) (values : List Json) :
    Settled flag values (setting config) (setting (values.foldl Config.override config)) := by
  induction values generalizing config with
  | nil => exact .inr ⟨fun value member => absurd member List.not_mem_nil, rfl⟩
  | cons value rest ih =>
    rw [List.foldl_cons]
    rcases ih (config.override value) with
      ⟨earlier, last, later, rfl, gives, silent⟩ | ⟨silent, same⟩
    · exact .inl ⟨value :: earlier, last, later, rfl, gives, silent⟩
    · by_cases speaks : ∃ b, value.Gives flag b
      · obtain ⟨b, gives⟩ := speaks
        rw [same, setting_override_of_gives law gives]
        exact .inl ⟨[], value, rest, rfl, gives, silent⟩
      · have mute : ∀ b, ¬value.Gives flag b := not_exists.mp speaks
        rw [same, setting_override_of_not_gives law mute]
        exact .inr ⟨List.forall_mem_cons.mpr ⟨mute, silent⟩, rfl⟩

end

/-! ## The values that count -/

namespace Json

/-- The options with which a client begins, unless they are null. -/
def initialOptions? (message : Json) : Option Json :=
  (message.parameters.get? "initializationOptions").filter fun value => !value.isNull

/-- The settings for this server in a notification of new settings, unless they are null. -/
def newSettings? (message : Json) : Option Json :=
  match (message.get? "method").bind str?, message.get? "id" with
  | some "workspace/didChangeConfiguration", none =>
    (message.parameters.at? ["settings", "blueprint"]).filter fun value => !value.isNull
  | _, _ => none

theorem filter_not_isNull_eq_some_iff {found : Option Json} {value : Json} :
    found.filter (fun value => !value.isNull) = some value ↔
      found = some value ∧ value ≠ .null := by
  rw [Option.filter_eq_some_iff]
  refine and_congr_right fun _ => ?_
  cases value <;> simp [isNull]

theorem newSettings?_eq_some_iff {message value : Json} :
    message.newSettings? = some value ↔ message.Notifies "workspace/didChangeConfiguration" ∧
      message.parameters.at? ["settings", "blueprint"] = some value ∧ value ≠ .null := by
  rw [← filter_not_isNull_eq_some_iff]
  unfold newSettings?
  constructor
  · intro found
    split at found
    · rename_i named unidentified
      exact ⟨⟨bind_str?_eq_some.mp named, unidentified⟩, found⟩
    · cases found
  · rintro ⟨⟨named, unidentified⟩, found⟩
    rw [named, unidentified]
    exact found

end Json

/-- This is the first one of the messages that requests this. -/
def FirstAsked (messages : List Json) (method : String) (first : Json) : Prop :=
  ∃ early late, messages = early ++ first :: late ∧ ¬Asked early method ∧
    ∃ id, first.Requests id method

/-- Whether the capabilities in a message declare that snippets are understood. -/
def Json.DeclaresSnippets (message : Json) : Prop :=
  message.parameters.at? ["capabilities", "textDocument", "completion", "completionItem",
    "snippetSupport"] = some (.bool true)

theorem Json.declaresSnippets_iff (message : Json) :
    ((message.parameters.get? "capabilities").bind snippetSupport?).getD false = true ↔
      message.DeclaresSnippets := by
  have support : (message.parameters.get? "capabilities").bind snippetSupport? =
      (message.parameters.at? ["capabilities", "textDocument", "completion", "completionItem",
        "snippetSupport"]).bind bool? := by
    unfold snippetSupport?
    rw [at?.eq_2, Option.bind_assoc]
  rw [support]
  unfold DeclaresSnippets
  generalize message.parameters.at? _ = declared
  rcases declared with _ | value
  · simp
  · cases value <;> simp [bool?]

/-- A client begins with the settings that its options make of what its capabilities declare. -/
theorem exists_requested (message : Json) :
    ∃ support, (support = true ↔ message.DeclaresSnippets) ∧
      Config.requested message.parameters =
        message.initialOptions?.toList.foldl Config.override ⟨support, true⟩ := by
  refine ⟨_, message.declaresSnippets_iff, ?_⟩
  unfold Config.requested Json.initialOptions?
  cases message.parameters.get? "initializationOptions" with
  | none => rfl
  | some options => cases options <;> rfl

namespace Workspace

/-- Only new settings change the settings. -/
theorem config_of_notified? {workspace next : Workspace} {method : String} {params : Json}
    (taken : workspace.notified? method params = some next)
    (other : ∀ config, ¬workspace.Means method params (.configure config)) :
    next.config = workspace.config := by
  by_cases means : ∃ notice, workspace.Means method params notice
  · obtain ⟨notice, means⟩ := means
    obtain ⟨⟩ := taken.symm.trans (notified?_of_means means)
    cases notice with
    | put | close => rfl
    | configure config => exact absurd means (other config)
  · rw [eq_of_notified?_of_not_means (not_exists.mp means) taken]

end Workspace

namespace Session

variable {session : Session} {message : Json}

theorem config_handle_of_newSettings? (running : session.phase = .running) {value : Json}
    (given : message.newSettings? = some value) :
    (session.handle message).1.workspace.config = session.workspace.config.override value := by
  obtain ⟨told, read, given⟩ := Json.newSettings?_eq_some_iff.mp given
  rw [handle_of_means running told (.settings rfl read given)]
  rfl

theorem config_handle_of_no_newSettings (begun : session.phase ≠ .uninitialized)
    (silent : message.newSettings? = none) :
    (session.handle message).1.workspace.config = session.workspace.config := by
  have step := session.step_handle message
  generalize (session.handle message).1 = next, (session.handle message).2 = sent at step ⊢
  cases step with
  | begin phase => exact absurd phase begun
  | notice _ told _ taken =>
    have kept := Workspace.config_of_notified? taken fun config means => by
      cases means with
      | settings named read given =>
        subst named
        cases silent.symm.trans (Json.newSettings?_eq_some_iff.mpr ⟨told, read, given⟩)
    exact kept
  | early | shutDown | answer | late | exit | ignored | response | invalid => rfl

/-- Once a session has begun, new settings override it if it runs, and nothing else does. -/
theorem config_handle (begun : session.phase ≠ .uninitialized) (message : Json) :
    (session.handle message).1.workspace.config =
      ((if session.phase = .running then [message] else []).filterMap Json.newSettings?).foldl
        Config.override session.workspace.config := by
  by_cases running : session.phase = .running
  · rw [if_pos running]
    cases given : message.newSettings? with
    | none =>
      rw [List.filterMap_cons_none given]
      exact config_handle_of_no_newSettings begun given
    | some value =>
      rw [List.filterMap_cons_some given]
      exact config_handle_of_newSettings? running given
  · rw [if_neg running]
    have shut : session.phase = .shuttingDown := by
      cases phase : session.phase with
      | uninitialized => exact absurd phase begun
      | running => exact absurd phase running
      | shuttingDown => rfl
    exact congrArg Workspace.config ((session.step_handle message).of_shuttingDown shut).1

/-- A session that has begun does not go back. -/
theorem begun_handle (begun : session.phase ≠ .uninitialized) (message : Json) :
    (session.handle message).1.phase ≠ .uninitialized := by
  intro back
  have step := session.phase_handle message
  rw [back] at step
  generalize session.phase = phase at step begun
  cases step with
  | wait => exact begun rfl

theorem handle_of_begin {id : Json} (phase : session.phase = .uninitialized)
    (asked : message.Requests id "initialize") :
    session.handle message = (session.begin message.parameters, [.result id greeting]) := by
  rw [handle_of_requests session asked]
  unfold handleRequest
  rw [phase]
  rfl

/-! ## Whole conversations -/

/-- Where something is asked for, it is asked for a first time. -/
theorem exists_firstAsked {messages : List Json} {method : String}
    (asked : Asked messages method) : ∃ first, FirstAsked messages method first := by
  induction messages with
  | nil => exact absurd asked (not_asked_nil method)
  | cons message rest ih =>
    by_cases now : ∃ id, message.Requests id method
    · exact ⟨message, [], rest, rfl, not_asked_nil method, now⟩
    · have later : Asked rest method := (asked_cons.mp asked).resolve_left now
      obtain ⟨first, early, late, rfl, before, requests⟩ := ih later
      refine ⟨first, message :: early, late, rfl, ?_, requests⟩
      rw [asked_cons, not_or]
      exact ⟨now, before⟩

/-- The messages that a session handles while it runs. -/
def whileRunning (session : Session) : List Json → List Json
  | [] => []
  | message :: rest =>
    (if session.phase = .running then [message] else []) ++
      (session.handle message).1.whileRunning rest

theorem whileRunning_append (session : Session) (front back : List Json) :
    session.whileRunning (front ++ back) =
      session.whileRunning front ++ (session.after front).whileRunning back := by
  induction front generalizing session with
  | nil => rfl
  | cons message rest ih =>
    rw [List.cons_append, whileRunning, whileRunning, ih, after_cons, List.append_assoc]

theorem whileRunning_of_uninitialized (phase : session.phase = .uninitialized)
    {messages : List Json} (unasked : ¬Asked messages "initialize") :
    session.whileRunning messages = [] := by
  induction messages generalizing session with
  | nil => rfl
  | cons message rest ih =>
    rw [asked_cons, not_or] at unasked
    have step := session.phase_handle message
    rw [phase] at step
    generalize next : (session.handle message).1.phase = p at step
    cases step with
    | begin asked => exact absurd ⟨_, asked⟩ unasked.1
    | wait => rw [whileRunning, phase, if_neg (by decide), ih next unasked.2, List.append_nil]

/-- Once a session has begun, it is overridden by all new settings that it handles while it runs,
and by nothing else. -/
theorem config_after (begun : session.phase ≠ .uninitialized) (messages : List Json) :
    (session.after messages).workspace.config =
      ((session.whileRunning messages).filterMap Json.newSettings?).foldl Config.override
        session.workspace.config := by
  induction messages generalizing session with
  | nil => rfl
  | cons message rest ih =>
    rw [after_cons, whileRunning, List.filterMap_append, List.foldl_append,
      ← config_handle begun message]
    exact ih (begun_handle begun message)

/-- A session has overridden what its client asked for first by the new settings since. -/
theorem config_of_firstAsked {messages : List Json} {first : Json}
    (asks : FirstAsked messages "initialize" first) :
    (new.after messages).workspace.config =
      ((new.whileRunning messages).filterMap Json.newSettings?).foldl Config.override
        (Config.requested first.parameters) := by
  obtain ⟨early, late, rfl, before, id, asked⟩ := asks
  have waiting : (new.after early).phase = .uninitialized :=
    (phase_after_of_uninitialized rfl early).1.mpr before
  have begins : ((new.after early).handle first).1 = (new.after early).begin first.parameters :=
    congrArg Prod.fst (handle_of_begin waiting asked)
  have begun : ((new.after early).begin first.parameters).phase ≠ .uninitialized := by
    show Phase.running ≠ .uninitialized
    decide
  have counted : new.whileRunning (early ++ first :: late) =
      ((new.after early).begin first.parameters).whileRunning late := by
    rw [whileRunning_append, whileRunning_of_uninitialized rfl before, whileRunning, begins,
      waiting, if_neg (by decide), List.nil_append, List.nil_append]
  rw [after_append, after_cons, begins, config_after begun, counted]
  rfl

/-- In every session that has begun each of the two settings is what the last value gives that gives
it, among the options of the first request to begin and the new settings that were handled while the
session ran. If none of them gives it, texts are scanned for diagnostics, and snippets are offered
just when the client declared with that request that it understands them. -/
theorem effective_config {messages : List Json}
    (begun : (new.after messages).phase ≠ .uninitialized) :
    let config := (new.after messages).workspace.config
    ∃ first support, FirstAsked messages "initialize" first ∧
      (support = true ↔ first.DeclaresSnippets) ∧
      let considered :=
        first.initialOptions?.toList ++ (new.whileRunning messages).filterMap Json.newSettings?
      Settled Options.diagnostics considered true config.diagnostics ∧
      Settled Options.snippets considered support config.snippets := by
  intro config
  have asked : Asked messages "initialize" := by
    by_contra unasked
    exact begun ((phase_after_of_uninitialized rfl messages).1.mpr unasked)
  obtain ⟨first, asks⟩ := exists_firstAsked asked
  obtain ⟨support, declared, requested⟩ := exists_requested first
  have overridden : config = (first.initialOptions?.toList ++
      (new.whileRunning messages).filterMap Json.newSettings?).foldl
        Config.override ⟨support, true⟩ := by
    unfold config
    rw [config_of_firstAsked asks, requested, List.foldl_append]
  refine ⟨first, support, asks, declared, ?_, ?_⟩
  · rw [overridden]
    exact settled_foldl (fun _ _ => rfl) ⟨support, true⟩ _
  · rw [overridden]
    exact settled_foldl (fun _ _ => rfl) ⟨support, true⟩ _

/-- New settings that are wrong in one member give nothing by the other. -/
theorem effective_config_wrong_member :
    let change (settings : Json) : Json := .object [
      ("method", .str "workspace/didChangeConfiguration"),
      ("params", .object [("settings", .object [("blueprint", settings)])])]
    let messages : List Json := [
      .object [("id", .int 1), ("method", .str "initialize"),
        ("params", .object [
          ("initializationOptions", .object [("snippetSupport", .bool true)])])],
      change (.object [("diagnosticsEnabled", .bool false)]),
      change (.object [("diagnosticsEnabled", .int 1), ("snippetSupport", .bool false)])]
    (new.after messages).phase ≠ .uninitialized ∧
      (new.after messages).workspace.config = ⟨true, false⟩ ∧
      ∃ first support, FirstAsked messages "initialize" first ∧
        (support = true ↔ first.DeclaresSnippets) ∧
        let considered :=
          first.initialOptions?.toList ++ (new.whileRunning messages).filterMap Json.newSettings?
        Settled Options.diagnostics considered true false ∧
        Settled Options.snippets considered support true := by
  intro change messages
  have begun : (new.after messages).phase ≠ .uninitialized := by decide +kernel
  have config : (new.after messages).workspace.config = ⟨true, false⟩ := by decide +kernel
  have settled := effective_config begun
  rw [config] at settled
  exact ⟨begun, config, settled⟩

end Session

end LanguageServer
