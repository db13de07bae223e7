import Mathlib.Data.List.DropRight
import Mathlib.Tactic.TFAE
import LanguageServer.Completion.Context
import LanguageServer.Proofs.Pattern
/-!
# Kinds of places

The kinds of a place are languages of the line before it: white space alone, a colon and white space
at the end, and a colon, white space and word characters at the end. The last two are told by their
form, by what is left when the runs at the end are dropped from right to left, and by the patterns
`:\s*$` (`Pattern.closing`) and `:\s*\w*$` (`Pattern.typing`), which may match anywhere on the line.
All this comes to the same (`classify_languages`), for a colon is neither white space nor a word
character, and no character is both.
-/

namespace LanguageServer

open Unicode

/-! ## Runs at the end -/

section

variable {α : Type} {p : α → Bool} {x : α} {list front run : List α}

/-- A run at the end is dropped if what precedes it cannot be part of it. -/
theorem rdropWhile_append_of_stops (all : ∀ y ∈ run, p y = true)
    (stops : ∀ y, front.getLast? = some y → p y = false) : (front ++ run).rdropWhile p = front := by
  have turned : ∀ y ∈ run.reverse, p y = true := fun y member => all y (List.mem_reverse.mp member)
  have halts : ∀ y, front.reverse.head? = some y → p y = false := by
    intro y last
    rw [List.head?_reverse] at last
    exact stops y last
  rw [List.rdropWhile, List.reverse_append, dropWhile_append_of_stops turned halts,
    List.reverse_reverse]

/-- What is left without the run at the end ends in an element that is not of the run if that stands
before the run. -/
theorem getLast?_rdropWhile_eq_some_iff (outside : p x = false) :
    (list.rdropWhile p).getLast? = some x ↔
      ∃ front run, list = front ++ x :: run ∧ ∀ y ∈ run, p y = true := by
  constructor
  · intro last
    obtain ⟨front, kept⟩ := List.getLast?_eq_some_iff.mp last
    refine ⟨front, list.rtakeWhile p, ?_, fun y => List.mem_rtakeWhile_imp⟩
    rw [List.append_cons, ← kept, List.rdropWhile_append_rtakeWhile]
  · rintro ⟨front, run, rfl, all⟩
    have stops (y : α) (last : (front ++ [x]).getLast? = some y) : p y = false := by
      rw [List.getLast?_concat] at last
      cases last
      exact outside
    rw [List.append_cons, rdropWhile_append_of_stops all stops, List.getLast?_concat]

end

/-- A colon, white space and word characters to the end of the line. -/
def Pattern.typing : Pattern :=
  seq (one (· == ':')) (seq (many true isWhiteSpace) (seq (many true isWord) stop))

/-! ## The patterns -/

namespace Pattern

variable {line : List Char}

theorem isSome_search_closing_iff :
    (closing.search line).isSome ↔ ∃ front blanks, line = front ++ ':' :: blanks ∧ Blank blanks := by
  rw [isSome_search_iff]
  constructor
  · rintro ⟨front, left, reached, rfl, reaches⟩
    obtain ⟨blanks, rfl, blank, -⟩ := exists_of_reaches_closing reaches
    exact ⟨front, blanks, rfl, blank⟩
  · rintro ⟨front, blanks, rfl, blank⟩
    exact ⟨front, ':' :: blanks, _, rfl, _, ⟨':', blanks, rfl, rfl, rfl⟩, _,
      ⟨blanks, [], (List.append_nil blanks).symm, blank, rfl⟩, rfl, rfl⟩

theorem isSome_search_typing_iff :
    (typing.search line).isSome ↔ ∃ front blanks word, line = front ++ ':' :: (blanks ++ word) ∧
      Blank blanks ∧ ∀ c ∈ word, isWord c = true := by
  rw [isSome_search_iff]
  constructor
  · rintro ⟨front, left, reached, rfl, _, ⟨c, rest, parts, colon, rfl⟩, _,
      ⟨blanks, back, parts', blank, rfl⟩, _, ⟨word, none, parts'', all, rfl⟩, done, -⟩
    obtain rfl : c = ':' := by simpa using colon
    obtain rfl : none = [] := done
    obtain rfl : rest = blanks ++ back := parts'
    obtain rfl : back = word := by simpa using parts''
    exact ⟨front, blanks, back, congrArg (front ++ ·) parts, blank, all⟩
  · rintro ⟨front, blanks, word, rfl, blank, all⟩
    exact ⟨front, ':' :: (blanks ++ word), _, rfl, _, ⟨':', blanks ++ word, rfl, rfl, rfl⟩, _,
      ⟨blanks, word, rfl, blank, rfl⟩, _, ⟨word, [], (List.append_nil word).symm, all, rfl⟩, rfl,
      rfl⟩

end Pattern

namespace Context

variable {before : List Char}

/-! ## By the end of the line -/

theorem isAfterColon_iff :
    isAfterColon before = true ↔ (before.rdropWhile isWhiteSpace).getLast? = some ':' := by
  rw [isAfterColon, List.rdropWhile, List.getLast?_reverse, decide_eq_true_eq]

theorem isTypePosition_iff :
    isTypePosition before = true ↔
      ((before.rdropWhile isWord).rdropWhile isWhiteSpace).getLast? = some ':' := by
  rw [isTypePosition, List.rdropWhile, List.rdropWhile, List.reverse_reverse, List.getLast?_reverse,
    decide_eq_true_eq]

/-- Dropping the word and then the white space at the end finds the colon, for neither the colon nor
white space is part of a word. -/
theorem getLast?_dropped_iff :
    ((before.rdropWhile isWord).rdropWhile isWhiteSpace).getLast? = some ':' ↔
      ∃ front blanks word, before = front ++ ':' :: (blanks ++ word) ∧ Blank blanks ∧
        ∀ c ∈ word, isWord c = true := by
  rw [getLast?_rdropWhile_eq_some_iff not_isWhiteSpace_colon]
  constructor
  · rintro ⟨front, blanks, kept, blank⟩
    refine ⟨front, blanks, before.rtakeWhile isWord, ?_, blank, fun c => List.mem_rtakeWhile_imp⟩
    rw [← List.cons_append, ← List.append_assoc, ← kept, List.rdropWhile_append_rtakeWhile]
  · rintro ⟨front, blanks, word, rfl, blank, all⟩
    refine ⟨front, blanks, ?_, blank⟩
    have stops (c : Char) (last : (front ++ ':' :: blanks).getLast? = some c) :
        isWord c = false := by
      rw [List.getLast?_append_cons] at last
      rcases List.mem_cons.mp (List.mem_of_getLast? last) with rfl | member
      · exact not_isWord_colon
      · exact not_isWord_of_isWhiteSpace (blank c member)
    rw [← List.cons_append, ← List.append_assoc, rdropWhile_append_of_stops all stops]

/-! ## The kinds together -/

/-- Behind a colon a type may stand, too. -/
theorem isTypePosition_of_isAfterColon (h : isAfterColon before = true) :
    isTypePosition before = true := by
  obtain ⟨front, blanks, parts, blank⟩ :=
    (getLast?_rdropWhile_eq_some_iff not_isWhiteSpace_colon).mp (isAfterColon_iff.mp h)
  refine isTypePosition_iff.mpr (getLast?_dropped_iff.mpr ⟨front, blanks, [], ?_, blank, ?_⟩)
  · rw [List.append_nil, parts]
  · exact fun c member => absurd member List.not_mem_nil

theorem isLineStart_iff : isLineStart before = true ↔ Blank before := List.all_eq_true

/-- The start of a line has no other kind, for there is no colon. -/
theorem alone_of_isLineStart (h : isLineStart before = true) :
    isAfterColon before = false ∧ isTypePosition before = false := by
  have untyped : isTypePosition before ≠ true := by
    intro typed
    obtain ⟨front, blanks, word, rfl, -⟩ := getLast?_dropped_iff.mp (isTypePosition_iff.mp typed)
    have white := isLineStart_iff.mp h ':' (by simp)
    cases white.symm.trans not_isWhiteSpace_colon
  exact ⟨Bool.eq_false_iff.mpr fun colon => untyped (isTypePosition_of_isAfterColon colon),
    Bool.eq_false_iff.mpr untyped⟩

/-- Four lists of kinds are all there are. -/
theorem classify_mem (before : List Char) :
    classify before ∈ [[lineStart, always], [afterColon, typePosition, always],
      [typePosition, always], [always]] := by
  cases start : isLineStart before with
  | true =>
    obtain ⟨colon, typed⟩ := alone_of_isLineStart start
    simp [classify, start, colon, typed]
  | false =>
    cases colon : isAfterColon before with
    | true => simp [classify, start, colon, isTypePosition_of_isAfterColon colon]
    | false => cases typed : isTypePosition before <;> simp [classify, start, colon, typed]

/-- Trimming leaves nothing of white space, and of nothing else. -/
theorem trim_eq_nil_iff : trim before = [] ↔ Blank before := by
  constructor
  · intro trimmed
    obtain ⟨left, right, parts, front, back⟩ := exists_trim before
    rw [trimmed, List.append_nil] at parts
    rw [parts]
    exact blank_append.mpr ⟨front, back⟩
  · intro blank
    rw [trim, List.dropWhile_eq_nil_iff.mpr blank]
    rfl

theorem mem_classify (before : List Char) :
    (lineStart ∈ classify before ↔ isLineStart before = true) ∧
    (afterColon ∈ classify before ↔ isAfterColon before = true) ∧
    (typePosition ∈ classify before ↔ isTypePosition before = true) := by
  simp [classify]

/-- Each kind of place is told in several ways. Every place has some kinds only together: at the
start of a line there is nothing but that, and behind a colon a type may stand. -/
theorem classify_languages (before : List Char) :
    [lineStart ∈ classify before, Blank before, trim before = []].TFAE ∧
    [afterColon ∈ classify before,
      ∃ front blanks, before = front ++ ':' :: blanks ∧ Blank blanks,
      (before.rdropWhile isWhiteSpace).getLast? = some ':',
      (Pattern.closing.search before).isSome = true].TFAE ∧
    [typePosition ∈ classify before,
      ∃ front blanks word, before = front ++ ':' :: (blanks ++ word) ∧ Blank blanks ∧
        ∀ c ∈ word, isWord c = true,
      ((before.rdropWhile isWord).rdropWhile isWhiteSpace).getLast? = some ':',
      (Pattern.typing.search before).isSome = true].TFAE ∧
    classify before ∈ [[lineStart, always], [afterColon, typePosition, always],
      [typePosition, always], [always]] ∧
    (afterColon ∈ classify before → typePosition ∈ classify before) ∧
    (lineStart ∈ classify before →
      afterColon ∉ classify before ∧ typePosition ∉ classify before) := by
  obtain ⟨start, colon, typed⟩ := mem_classify before
  refine ⟨?_, ?_, ?_, ?_, ?_, ?_⟩
  · tfae_have 1 ↔ 2 := start.trans isLineStart_iff
    tfae_have 3 ↔ 2 := trim_eq_nil_iff
    tfae_finish
  · tfae_have 1 ↔ 3 := colon.trans isAfterColon_iff
    tfae_have 3 ↔ 2 := getLast?_rdropWhile_eq_some_iff not_isWhiteSpace_colon
    tfae_have 4 ↔ 2 := Pattern.isSome_search_closing_iff
    tfae_finish
  · tfae_have 1 ↔ 3 := typed.trans isTypePosition_iff
    tfae_have 3 ↔ 2 := getLast?_dropped_iff
    tfae_have 4 ↔ 2 := Pattern.isSome_search_typing_iff
    tfae_finish
  · exact classify_mem before
  · exact fun member => typed.mpr (isTypePosition_of_isAfterColon (colon.mp member))
  · intro member
    obtain ⟨bare, untyped⟩ := alone_of_isLineStart (start.mp member)
    exact ⟨fun other => Bool.eq_false_iff.mp bare (colon.mp other),
      fun other => Bool.eq_false_iff.mp untyped (typed.mp other)⟩

end Context

end LanguageServer
