import LanguageServer.Proofs.Denotation
import LanguageServer.Proofs.Store
/-!
# Replay of edits

The text of an open document is what it was opened with, changed by every batch that was accepted
since, and by nothing else (`document_eq_replay`). A batch changes a plain list of characters
(`Replays`).
-/

namespace LanguageServer

/-- What the changes of a batch make of some characters, each of what the ones before it leave. A
change with a range replaces the characters between the offsets that its two positions denote, in
whichever order they come. -/
inductive Replays : List Char → List Change → List Char → Prop
  | done (chars : List Char) : Replays chars [] chars
  | whole {chars out : List Char} {new : String} {rest : List Change} :
      Replays new.toList rest out → Replays chars (⟨none, new⟩ :: rest) out
  | part {chars out : List Char} {range : Range} {new : String} {rest : List Change}
      {a b : Nat} : Denotes chars range.start a → Denotes chars range.stop b →
      Replays (chars.take (min a b) ++ new.toList ++ chars.drop (max a b)) rest out →
      Replays chars (⟨some range, new⟩ :: rest) out

theorem Text.applyAll_eq_ok_iff_replays {text next : Text} {changes : List Change} :
    text.applyAll changes = .ok next ↔ Replays text.chars changes next.chars := by
  induction changes generalizing text with
  | nil =>
    constructor
    · rintro ⟨⟩
      exact .done _
    · obtain ⟨chars⟩ := text
      obtain ⟨result⟩ := next
      rintro ⟨⟩
      rfl
  | cons change rest ih =>
    rw [applyAll_cons_eq_ok]
    obtain ⟨_ | range, new⟩ := change
    · constructor
      · rintro ⟨middle, ⟨⟩, replayed⟩
        exact .whole (ih.mp replayed)
      · intro replayed
        cases replayed with
        | whole replayed => exact ⟨.ofString new, rfl, ih.mpr replayed⟩
    · constructor
      · rintro ⟨middle, applied, replayed⟩
        obtain ⟨a, b, start, stop, rfl⟩ := apply_range_eq_ok.mp applied
        refine .part (offset?_eq_some_iff_denotes.mp start)
          (offset?_eq_some_iff_denotes.mp stop) ?_
        rw [← text.chars_replace (by omega)]
        exact ih.mp replayed
      · intro replayed
        cases replayed with
        | @part _ _ _ _ _ a b start stop replayed =>
          refine ⟨text.replace (min a b) (max a b) new.toList, ?_, ih.mpr ?_⟩
          · exact apply_range_eq_ok.mpr ⟨a, b, offset?_eq_some_iff_denotes.mpr start,
              offset?_eq_some_iff_denotes.mpr stop, rfl⟩
          · rw [text.chars_replace (by omega)]
            exact replayed

/-- Two batches one after the other are one longer batch. -/
theorem replays_append {chars out : List Char} {first second : List Change} :
    Replays chars (first ++ second) out ↔
      ∃ middle, Replays chars first middle ∧ Replays middle second out := by
  induction first generalizing chars with
  | nil =>
    constructor
    · intro replayed
      exact ⟨chars, .done chars, replayed⟩
    · rintro ⟨middle, ⟨⟩, replayed⟩
      exact replayed
  | cons change rest ih =>
    constructor
    · intro replayed
      cases replayed with
      | whole replayed =>
        obtain ⟨middle, front, back⟩ := ih.mp replayed
        exact ⟨middle, .whole front, back⟩
      | part start stop replayed =>
        obtain ⟨middle, front, back⟩ := ih.mp replayed
        exact ⟨middle, .part start stop front, back⟩
    · rintro ⟨middle, front, back⟩
      cases front with
      | whole front => exact .whole (ih.mpr ⟨middle, front, back⟩)
      | part start stop front => exact .part start stop (ih.mpr ⟨middle, front, back⟩)

namespace Store

/-- The last opening of a uri among some accepted calls and the edits that came after it account
for its document: for its version, the last of versions that only grew, and for its text. -/
def Accounts (calls : List Call) (uri : String) (document : Document) : Prop :=
  ∃ (earlier : List Call) (text : Text) (version : Int32) (edits : List (List Change × Int32)),
    calls.filter (·.uri = uri) = earlier ++ .openDocument uri text version ::
      edits.map (fun edit => .edit uri edit.1 edit.2) ∧
    (version :: edits.map Prod.snd).Pairwise (· < ·) ∧
    (version :: edits.map Prod.snd).getLast? = some document.version ∧
    ∀ chars, Replays text.chars (edits.flatMap Prod.fst) chars ↔ chars = document.text.chars

theorem Accounts.concat_of_ne {calls : List Call} {uri : String} {document : Document}
    (h : Accounts calls uri document) {call : Call} (other : call.uri ≠ uri) :
    Accounts (calls ++ [call]) uri document := by
  have same : (calls ++ [call]).filter (·.uri = uri) = calls.filter (·.uri = uri) := by
    simp [other]
  rw [Accounts, same]
  exact h

theorem accounts_openDocument (calls : List Call) (uri : String) (text : Text)
    (version : Int32) :
    Accounts (calls ++ [.openDocument uri text version]) uri ⟨version, text⟩ := by
  refine ⟨calls.filter (·.uri = uri), text, version, [], by simp [Call.uri],
    List.pairwise_singleton _ _, rfl, fun chars => ?_⟩
  constructor
  · rintro ⟨⟩
    rfl
  · rintro rfl
    exact .done _

/-- Versions that grow go on growing with one that is greater than the last of them. -/
theorem pairwise_concat {versions : List Int32} {last version : Int32}
    (grow : versions.Pairwise (· < ·)) (h : versions.getLast? = some last)
    (newer : last < version) : (versions ++ [version]).Pairwise (· < ·) := by
  obtain ⟨front, rfl⟩ := List.getLast?_eq_some_iff.mp h
  refine List.pairwise_append.mpr ⟨grow, List.pairwise_singleton _ _, ?_⟩
  intro old member new single
  obtain rfl := List.mem_singleton.mp single
  rcases List.mem_append.mp member with before | equal
  · have less := (List.pairwise_append.mp grow).2.2 old before last (List.mem_singleton.mpr rfl)
    exact Int32.lt_trans less newer
  · exact List.mem_singleton.mp equal ▸ newer

theorem Accounts.edit {calls : List Call} {uri : String} {document : Document}
    (h : Accounts calls uri document) {changes : List Change} {version : Int32} {text : Text}
    (newer : document.version < version) (applied : document.text.applyAll changes = .ok text) :
    Accounts (calls ++ [.edit uri changes version]) uri ⟨version, text⟩ := by
  obtain ⟨earlier, opening, first, edits, calls_eq, grow, last, replayed⟩ := h
  refine ⟨earlier, opening, first, edits ++ [(changes, version)], ?_, ?_, ?_, ?_⟩
  · rw [List.filter_append, calls_eq]
    simp [Call.uri]
  · simpa using pairwise_concat grow last newer
  · rw [List.map_append, ← List.cons_append]
    exact List.getLast?_concat
  · intro chars
    rw [List.flatMap_append, replays_append]
    simp only [replayed, exists_eq_left, List.flatMap_cons, List.flatMap_nil, List.append_nil]
    have made : document.text.applyAll changes = .ok ⟨chars⟩ ↔
        Replays document.text.chars changes chars := Text.applyAll_eq_ok_iff_replays
    obtain ⟨result⟩ := text
    rw [← made, applied]
    simp [eq_comm]

/-- Each document of a store is accounted for. -/
def Accounted (calls : List Call) (store : Store) : Prop :=
  ∀ uri document, store.document? uri = some document → Accounts calls uri document

theorem accounted_perform {calls : List Call} {store next : Store} {call : Call}
    (h : Accounted calls store) (performed : store.perform call = .ok next) :
    Accounted (calls ++ [call]) next := by
  intro uri document found
  by_cases same : call.uri = uri
  · subst same
    cases call with
    | openDocument uri text version =>
      obtain ⟨-, rfl⟩ := openDocument_eq_ok.mp performed
      rw [document?_put, Call.uri, if_pos rfl] at found
      cases found
      exact accounts_openDocument calls uri text version
    | edit uri changes version =>
      obtain ⟨old, text, stored, newer, applied, rfl⟩ := edit_eq_ok.mp performed
      rw [document?_put, Call.uri, if_pos rfl] at found
      cases found
      exact (h uri old stored).edit newer applied
    | close uri =>
      cases performed
      rw [document?_close, Call.uri, if_pos rfl] at found
      cases found
  · rw [document?_perform_of_ne performed same] at found
    exact (h uri document found).concat_of_ne same

theorem accounted_run {past : List Call} {store : Store} (h : Accounted past store)
    (calls : List Call) : Accounted (past ++ store.accepted calls) (store.run calls) := by
  induction calls generalizing past store with
  | nil => simpa [accepted, run] using h
  | cons call rest ih =>
    rw [accepted, run]
    cases performed : store.perform call with
    | ok next =>
      have longer := ih (accounted_perform h performed)
      rwa [List.append_assoc] at longer
    | error error => exact ih h

/-- After any calls, the document of every open uri has the version of the last accepted opening or
edit and the text that replaying the accepted edits since the opening gives, and only that. Every
accepted edit raises the version of a document that is open. -/
theorem document_eq_replay (calls : List Call) :
    (∀ uri document, (empty.run calls).document? uri = some document →
      Accounts (empty.accepted calls) uri document) ∧
    ∀ uri changes version next, (empty.run calls).edit uri changes version = .ok next →
      ∃ document, (empty.run calls).document? uri = some document ∧
        document.version < version := by
  constructor
  · have start : Accounted [] empty := fun uri document found => by cases found
    exact accounted_run start calls
  · intro uri changes version next h
    obtain ⟨document, text, found, newer, -, -⟩ := edit_eq_ok.mp h
    exact ⟨document, found, newer⟩

end Store

end LanguageServer
