import LanguageServer.Proofs.Notice
import LanguageServer.Proofs.Splice
/-!
# What follows a position

What precedes a position on its line depends on no character behind the position, and nor does it
that the position is one of the text (`Cut.before?_of_prefix`). A line feed behind it may join a
carriage return before it, which moves the offset of the position, but neither its line nor its
column. So changes behind a position leave on offer there what was on offer (`offer_of_behind`).
-/

namespace LanguageServer

/-- Both ends of a range are at a position or behind it. -/
def Range.Behind (range : Range) (position : Position) : Prop :=
  ¬range.start < position ∧ ¬range.stop < position

/-- Every change of a batch is one of a range behind a position. -/
def ChangesBehind (changes : List Change) (position : Position) : Prop :=
  ∀ change ∈ changes, ∃ range, change.range = some range ∧ range.Behind position

namespace Text

variable {text next : Text} {position : Position}

/-- A text that goes on in any way behind a cut has the line of the cut, up to the cut. -/
theorem Cut.exists_lines_of_prefix (cut : text.Cut position)
    (same : text.chars.take cut.offset <+: next.chars) :
    ∃ after back, next.lines = cut.front.map Line.body ++ (cut.before ++ after) :: back := by
  obtain ⟨tail, whole⟩ := same
  rw [cut.take_offset, List.append_assoc] at whole
  have unbroken := (unbroken_append.mp cut.unbroken).1
  have lines_eq := lines_front_append cut.linked (List.cons_ne_nil _ _) (cut.before ++ tail)
  rw [whole] at lines_eq
  by_cases joins : Joins (cut.front.flatMap Line.chars) (cut.before ++ tail)
  · -- The cut is at the start of a line, and the line feed belongs to the line before it now.
    have start : cut.before = [] := by
      apply Classical.byContradiction
      intro nonempty
      exact unbroken.ne_of_head nonempty (.inr rfl) joins.2
    rw [if_pos joins, start, List.nil_append] at lines_eq
    have feed : tail.head? = some '\n' := by simpa [start] using joins.2
    obtain ⟨rest, rfl⟩ := List.head?_eq_some_iff.mp feed
    rw [lines_line_feed, List.tail_cons] at lines_eq
    obtain ⟨after, back, others⟩ := List.exists_cons_of_ne_nil (lines_ne_nil ⟨rest⟩)
    rw [others] at lines_eq
    exact ⟨after, back, by rw [start]; exact lines_eq⟩
  · obtain ⟨after, back, behind⟩ := List.exists_cons_of_ne_nil (lines_ne_nil ⟨tail⟩)
    rw [if_neg joins, lines_append_of_unbroken unbroken behind] at lines_eq
    exact ⟨after, back, lines_eq⟩

/-- What precedes a position on its line depends only on the characters before its offset. -/
theorem Cut.before?_of_prefix (cut : text.Cut position)
    (same : text.chars.take cut.offset <+: next.chars) :
    next.before? position = some cut.before := by
  obtain ⟨after, back, lines_eq⟩ := cut.exists_lines_of_prefix same
  have line : position.line.toNat = (cut.front.map Line.body).length := by
    rw [List.length_map, cut.length_front]
  obtain ⟨there, before, -⟩ := exists_cut position lines_eq line cut.width_before.symm
  exact before?_eq_some_iff.mpr ⟨there, before⟩

/-- A change behind a position leaves the line before the position as it is. -/
theorem before?_apply {before : List Char} {range : Range} {new : String}
    (place : text.before? position = some before) (behind : range.Behind position)
    (accepted : text.apply ⟨some range, new⟩ = .ok next) :
    next.before? position = some before := by
  obtain ⟨cut, rfl⟩ := before?_eq_some_iff.mp place
  obtain ⟨a, b, start, stop, rfl⟩ := apply_range_eq_ok.mp accepted
  have here : text.offset? position = some cut.offset := offset?_eq_some_iff.mpr ⟨cut, rfl⟩
  have first : ¬a < cut.offset := mt (lt_iff_of_offset? start here).mpr behind.1
  have second : ¬b < cut.offset := mt (lt_iff_of_offset? stop here).mpr behind.2
  apply cut.before?_of_prefix
  rw [text.chars_replace (by omega), List.append_assoc]
  have shorter : text.chars.take cut.offset <+: text.chars.take (min a b) :=
    List.take_prefix_take_left (by omega)
  exact shorter.trans (List.prefix_append _ _)

/-- A batch of changes behind a position leaves the line before the position as it is. -/
theorem before?_applyAll {before : List Char} {changes : List Change}
    (place : text.before? position = some before) (behind : ChangesBehind changes position)
    (accepted : text.applyAll changes = .ok next) :
    next.before? position = some before := by
  induction changes generalizing text with
  | nil =>
    cases accepted
    exact place
  | cons change rest ih =>
    obtain ⟨middle, applied, remaining⟩ := applyAll_cons_eq_ok.mp accepted
    obtain ⟨_, new⟩ := change
    obtain ⟨range, rfl, apart⟩ := behind _ List.mem_cons_self
    have later : ChangesBehind rest position :=
      fun other member => behind other (List.mem_cons_of_mem _ member)
    exact ih (before?_apply place apart applied) later remaining

end Text

namespace Workspace

/-- A workspace completes at the positions of open documents, by the line before them. -/
theorem complete_eq_ok {workspace : Workspace} {uri : String} {position : Position}
    {candidates : List Candidate} :
    workspace.complete uri position = .ok candidates ↔
      ∃ document before, workspace.store.document? uri = some document ∧
        document.text.before? position = some before ∧
        candidates =
          Candidate.ofContexts workspace.config.snippets (workspace.classify before) := by
  unfold complete
  simp only [bind_eq_ok, Store.document_eq_ok, Candidate.atPosition?]
  constructor
  · rintro ⟨document, found, given⟩
    cases place : document.text.before? position with
    | none => simp [place] at given
    | some before => exact ⟨document, before, found, place, by simpa [place, eq_comm] using given⟩
  · rintro ⟨document, before, found, place, rfl⟩
    exact ⟨document, found, by simp [place]⟩

end Workspace

/-- Where candidates are on offer, a change of a range behind the position, whatever it puts there,
leaves the same candidates on offer at the same position. So does a batch of such changes, and a
workspace that takes one as an edit of an open document goes on completing as before. -/
theorem offer_of_behind (classify : Classifier) (snippets : Bool) {text : Text}
    {position : Position} {candidates : List Candidate}
    (offered : Candidate.atPosition? classify snippets text position = some candidates) :
    (∀ range new next, range.Behind position → text.apply ⟨some range, new⟩ = .ok next →
      Candidate.atPosition? classify snippets next position = some candidates) ∧
    (∀ changes next, ChangesBehind changes position → text.applyAll changes = .ok next →
      Candidate.atPosition? classify snippets next position = some candidates) ∧
    ∀ (workspace next : Workspace) uri changes version, workspace.classify = classify →
      workspace.config.snippets = snippets →
      (∃ document, workspace.store.document? uri = some document ∧ document.text = text) →
      ChangesBehind changes position → workspace.edit uri changes version = .ok next →
      workspace.complete uri position = .ok candidates ∧
        next.complete uri position = .ok candidates := by
  obtain ⟨before, place, rfl⟩ := Option.map_eq_some_iff.mp offered
  refine ⟨?_, ?_, ?_⟩
  · intro range new next behind accepted
    rw [Candidate.atPosition?, Text.before?_apply place behind accepted, Option.map_some]
  · intro changes next behind accepted
    rw [Candidate.atPosition?, Text.before?_applyAll place behind accepted, Option.map_some]
  · rintro workspace next uri changes version rfl rfl ⟨document, found, rfl⟩ behind accepted
    obtain ⟨_, edited, again, -, applied, rfl⟩ := Workspace.edit_eq_ok.mp accepted
    cases found.symm.trans again
    refine ⟨Workspace.complete_eq_ok.mpr ⟨document, before, found, place, rfl⟩,
      Workspace.complete_eq_ok.mpr ⟨⟨version, edited⟩, before, ?_, ?_, rfl⟩⟩
    · exact (Store.document?_put _ _ _ _).trans (if_pos rfl)
    · exact Text.before?_applyAll place behind applied

/-- Deleting what stands between a carriage return and a line feed moves the offset of a position
there, but not what is on offer. -/
theorem offer_of_behind_joined :
    let text : Text := ⟨['a', '\r', 'b', '\n', 'c']⟩
    let next : Text := ⟨['a', '\r', '\n', 'c']⟩
    let range : Range := ⟨⟨1, 1⟩, ⟨1, 0⟩⟩
    let candidates := Candidate.ofContexts true [.lineStart, .always]
    Candidate.atPosition? Context.classify true text ⟨1, 0⟩ = some candidates ∧
      range.Behind ⟨1, 0⟩ ∧ text.apply ⟨some range, ""⟩ = .ok next ∧
      text.offset? ⟨1, 0⟩ = some 2 ∧ next.offset? ⟨1, 0⟩ = some 3 ∧
      Candidate.atPosition? Context.classify true next ⟨1, 0⟩ = some candidates := by
  intro text next range candidates
  have offered : Candidate.atPosition? Context.classify true text ⟨1, 0⟩ = some candidates := rfl
  have behind : range.Behind ⟨1, 0⟩ := by
    constructor <;> rintro (line | ⟨-, column⟩) <;> contradiction
  have accepted : text.apply ⟨some range, ""⟩ = .ok next := rfl
  exact ⟨offered, behind, accepted, by decide, by decide,
    (offer_of_behind Context.classify true offered).1 range "" next behind accepted⟩

end LanguageServer
