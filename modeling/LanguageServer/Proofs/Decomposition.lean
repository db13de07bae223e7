import Mathlib.Data.List.Basic
import LanguageServer.Proofs.Splice
/-!
# Texts as lines and terminators

A text is its lines with a terminator behind each but the last one (`Decomposes`). Splitting finds
such lines (`Linked.decomposes`), and there are no others (`Decomposes.eq_of_split`), because a
carriage return and a line feed behind it never are two terminators. A line with its terminator is a
piece of the text: the line is what is left of the piece without its line break (`trimBreak_chars`),
and it starts where the pieces before it end (`lineStart_eq`). The main statement is
`lines_decompose`.
-/

namespace LanguageServer

/-- What ends a line. -/
def IsTerminator (chars : List Char) : Prop :=
  chars = ['\n'] ∨ chars = ['\r', '\n'] ∨ chars = ['\r']

/-- What Unicode ends lines with besides the carriage return and the line feed. -/
def separators : List Char := ['\x0b', '\x0c', '\u0085', '\u2028', '\u2029']

/-- Each line with the terminator behind it. There is none behind the last one. -/
def pieces (lines terminators : List (List Char)) : List (List Char) :=
  List.zipWith (· ++ ·) lines (terminators ++ [[]])

/-- Some characters are lines with a terminator behind each but the last one. -/
structure Decomposes (lines terminators : List (List Char)) (chars : List Char) : Prop where
  length_eq : lines.length = terminators.length + 1
  unbroken : ∀ line ∈ lines, '\r' ∉ line ∧ '\n' ∉ line
  terminated : ∀ terminator ∈ terminators, IsTerminator terminator
  /-- A carriage return is no terminator of its own before a line feed. -/
  apart : ∀ index, terminators[index]? = some ['\r'] →
    ((pieces lines terminators).drop (index + 1)).flatten.head? ≠ some '\n'
  whole : (pieces lines terminators).flatten = chars

/-- A piece without the one line break at its end. -/
def trimBreak (piece : List Char) : List Char :=
  (((piece.dropSuffix? ['\r', '\n']).or (piece.dropSuffix? ['\n'])).or
    (piece.dropSuffix? ['\r'])).getD piece

/-- A terminator is one of the endings, with which the line ends. -/
theorem IsTerminator.exists_ends {terminator line rest : List Char}
    (h : IsTerminator terminator) (solid : Unbroken line)
    (alone : terminator = ['\r'] → rest.head? ≠ some '\n') :
    ∃ ending : Ending, ending.chars = terminator ∧ Line.Ends ⟨line, ending⟩ rest := by
  rcases h with rfl | rfl | rfl
  · exact ⟨.lf, rfl, solid, by simp, by simp⟩
  · exact ⟨.crlf, rfl, solid, by simp, by simp⟩
  · exact ⟨.cr, rfl, solid, by simp, fun _ => alone rfl⟩

theorem Line.Ends.isTerminator {line : Line} {rest : List Char} (h : line.Ends rest) :
    IsTerminator line.ending.chars := by
  cases ending : line.ending with
  | none => exact absurd ending h.ended
  | lf => exact .inl rfl
  | crlf => exact .inr (.inl rfl)
  | cr => exact .inr (.inr rfl)

/-! ## Decompositions -/

theorem decomposes_singleton {line chars : List Char} :
    Decomposes [line] [] chars ↔ Unbroken line ∧ chars = line := by
  have single : (pieces [line] []).flatten = line := by simp [pieces]
  constructor
  · intro h
    exact ⟨unbroken_iff.mpr (h.unbroken line (by simp)), h.whole.symm.trans single⟩
  · rintro ⟨solid, rfl⟩
    exact ⟨rfl, by simpa using unbroken_iff.mp solid, by simp, by simp, single⟩

theorem decomposes_cons_cons {line terminator chars : List Char}
    {lines terminators : List (List Char)} :
    Decomposes (line :: lines) (terminator :: terminators) chars ↔
      Unbroken line ∧ IsTerminator terminator ∧
      ∃ rest, chars = line ++ terminator ++ rest ∧
        (terminator = ['\r'] → rest.head? ≠ some '\n') ∧ Decomposes lines terminators rest := by
  have first : pieces (line :: lines) (terminator :: terminators) =
      (line ++ terminator) :: pieces lines terminators := rfl
  constructor
  · intro h
    obtain ⟨solid, unbroken⟩ := List.forall_mem_cons.mp h.unbroken
    obtain ⟨ended, terminated⟩ := List.forall_mem_cons.mp h.terminated
    refine ⟨unbroken_iff.mpr solid, ended, (pieces lines terminators).flatten, ?_, ?_, ?_⟩
    · rw [← h.whole, first, List.flatten_cons]
    · intro carriage
      exact h.apart 0 (by simp [carriage])
    -- Below the first piece every index is one less.
    · have length_eq := h.length_eq
      simp only [List.length_cons] at length_eq
      exact ⟨by omega, unbroken, terminated, fun index => h.apart (index + 1), rfl⟩
  · rintro ⟨solid, ended, rest, rfl, alone, below⟩
    refine ⟨by simp [below.length_eq], ?_, ?_, ?_, ?_⟩
    · exact List.forall_mem_cons.mpr ⟨unbroken_iff.mp solid, below.unbroken⟩
    · exact List.forall_mem_cons.mpr ⟨ended, below.terminated⟩
    · intro index found
      cases index with
      | zero =>
        have carriage : terminator = ['\r'] := by simpa using found
        simpa [first, below.whole] using alone carriage
      | succ index => exact below.apart index found
    · rw [first, List.flatten_cons, below.whole]

namespace Line

/-- The endings of all lines but the last one. -/
def endings (parts : List Line) : List (List Char) :=
  parts.dropLast.map fun line => line.ending.chars

theorem endings_cons (line : Line) {rest : List Line} (nonempty : rest ≠ []) :
    endings (line :: rest) = line.ending.chars :: endings rest := by
  rw [endings, List.dropLast_cons_of_ne_nil nonempty]
  rfl

theorem Linked.pieces_eq {parts : List Line} (h : Linked parts) :
    pieces (parts.map Line.body) (endings parts) = parts.map Line.chars := by
  induction h with
  | last => simp [pieces, endings, Line.chars, Ending.chars]
  | @next line rest _ linked ih =>
    rw [endings_cons line linked.ne_nil, List.map_cons, List.map_cons, ← ih]
    rfl

/-- Lines that follow one another as in a text decompose what they are together. -/
theorem Linked.decomposes {parts : List Line} (h : Linked parts) :
    Decomposes (parts.map Line.body) (endings parts) (parts.flatMap Line.chars) := by
  induction h with
  | @last body solid =>
    apply decomposes_singleton.mpr
    exact ⟨solid, by simp [Line.chars, Ending.chars]⟩
  | @next line rest ends linked ih =>
    rw [endings_cons line linked.ne_nil, List.map_cons, List.flatMap_cons]
    apply decomposes_cons_cons.mpr
    refine ⟨ends.unbroken, ends.isTerminator, _, rfl, ?_, ih⟩
    intro carriage
    apply ends.whole
    cases ending : line.ending with
    | cr => rfl
    | none | lf | crlf => simp [ending, Ending.chars] at carriage

end Line

/-- Splitting finds every decomposition. -/
theorem Decomposes.eq_of_split {lines terminators : List (List Char)} {chars : List Char}
    (h : Decomposes lines terminators chars) :
    lines = (Line.split chars).map Line.body ∧
      terminators = Line.endings (Line.split chars) := by
  induction terminators generalizing lines chars with
  | nil =>
    obtain ⟨line, rfl⟩ := List.length_eq_one_iff.mp h.length_eq
    obtain ⟨solid, rfl⟩ := decomposes_singleton.mp h
    rw [Line.split_of_unbroken solid]
    exact ⟨rfl, rfl⟩
  | cons terminator more ih =>
    obtain ⟨line, rest, rfl⟩ := List.exists_cons_of_length_eq_add_one h.length_eq
    obtain ⟨solid, ended, tail, rfl, alone, below⟩ := decomposes_cons_cons.mp h
    -- Splitting takes the same line off, as its terminator is a whole line break.
    obtain ⟨ending, rfl, ends⟩ := ended.exists_ends solid alone
    obtain ⟨rfl, rfl⟩ := ih below
    have first : Line.split (line ++ ending.chars ++ tail) = ⟨line, ending⟩ :: Line.split tail :=
      Line.split_append_of_ends ends
    rw [first, Line.endings_cons _ (Line.linked_split tail).ne_nil]
    exact ⟨rfl, rfl⟩

/-! ## Pieces and lines -/

theorem dropSuffix?_append (front back : List Char) :
    (front ++ back).dropSuffix? back = some front :=
  List.dropSuffix?_eq_some_iff.mpr ⟨back, rfl, by simp⟩

theorem dropSuffix?_eq_none {chars suffix : List Char} (h : ¬ suffix <:+ chars) :
    chars.dropSuffix? suffix = none := by
  apply Option.eq_none_iff_forall_ne_some.mpr
  intro front found
  obtain ⟨back, rfl, same⟩ := List.dropSuffix?_eq_some_iff.mp found
  obtain rfl := eq_of_beq same
  exact h (List.suffix_append front back)

/-- No line break can be stripped from a line. -/
theorem Unbroken.dropSuffix?_eq_none {line suffix : List Char} (h : Unbroken line) {c : Char}
    (broken : IsBreak c) (member : c ∈ suffix) : line.dropSuffix? suffix = none := by
  apply LanguageServer.dropSuffix?_eq_none
  intro back
  exact h c (back.subset member) broken

theorem dropSuffix?_concat_of_ne {c d : Char} (different : c ≠ d) (chars front : List Char) :
    (chars ++ [c]).dropSuffix? (front ++ [d]) = none := by
  apply dropSuffix?_eq_none
  rintro ⟨before, same⟩
  rw [← List.append_assoc] at same
  obtain ⟨-, last⟩ := List.append_inj' same rfl
  exact different (List.cons.inj last).1.symm

/-- A line is its piece without the line break. -/
theorem trimBreak_chars {line : Line} (h : Unbroken line.body) :
    trimBreak line.chars = line.body := by
  obtain ⟨body, ending⟩ := line
  have strip (suffix : List Char) {c : Char} (broken : IsBreak c) (member : c ∈ suffix) :
      body.dropSuffix? suffix = none := h.dropSuffix?_eq_none broken member
  unfold trimBreak Line.chars
  cases ending with
  | none =>
    have crlf := strip ['\r', '\n'] (.inr rfl) (by simp)
    have lf := strip ['\n'] (.inr rfl) (by simp)
    have cr := strip ['\r'] (.inl rfl) (by simp)
    simp [Ending.chars, crlf, lf, cr]
  | lf =>
    have crlf : ¬ ['\r', '\n'] <:+ body ++ ['\n'] := by
      rintro ⟨front, same⟩
      have both : front ++ ['\r'] ++ ['\n'] = body ++ ['\n'] := by simpa using same
      have ends : body = front ++ ['\r'] := (List.append_cancel_right both).symm
      exact h '\r' (by simp [ends]) (.inl rfl)
    simp [Ending.chars, dropSuffix?_eq_none crlf, dropSuffix?_append]
  | crlf => simp [Ending.chars, dropSuffix?_append]
  | cr =>
    have crlf : (body ++ ['\r']).dropSuffix? ['\r', '\n'] = none :=
      dropSuffix?_concat_of_ne (by decide) body ['\r']
    have lf : (body ++ ['\r']).dropSuffix? ['\n'] = none :=
      dropSuffix?_concat_of_ne (by decide) body []
    simp [Ending.chars, crlf, lf, dropSuffix?_append]

/-- A call of `Text.replace`. -/
structure Replacement where
  start : Nat
  stop : Nat
  new : List Char
  deriving DecidableEq, Repr

namespace Text

/-- The text that calls leave, each made on the text that the ones before it leave. -/
def replaceAll (text : Text) (calls : List Replacement) : Text :=
  calls.foldl (fun text call => text.replace call.start call.stop call.new) text

/-- What ends the lines of a text, but for the last one, which nothing ends. -/
def terminators (text : Text) : List (List Char) := Line.endings (Line.split text.chars)

/-- A text is its lines with its terminators between them, and no other ones. -/
theorem decomposes_iff (text : Text) (lines terminators : List (List Char)) :
    Decomposes lines terminators text.chars ↔
      lines = text.lines ∧ terminators = text.terminators := by
  constructor
  · intro h
    exact h.eq_of_split
  · rintro ⟨rfl, rfl⟩
    have parts := (Line.linked_split text.chars).decomposes
    rwa [Line.flatMap_chars_split] at parts

theorem pieces_eq (text : Text) :
    pieces text.lines text.terminators = (Line.split text.chars).map Line.chars :=
  (Line.linked_split text.chars).pieces_eq

theorem map_trimBreak_pieces (text : Text) :
    (pieces text.lines text.terminators).map trimBreak = text.lines := by
  rw [pieces_eq, List.map_map]
  apply List.map_congr_left
  intro line member
  exact trimBreak_chars ((Line.linked_split text.chars).unbroken_of_mem member)

theorem map_line?_range (text : Text) :
    (List.range text.lineCount).map text.line? = text.lines.map some := by
  apply List.ext_getElem
  · simp [lineCount]
  · intro index _ inside
    have bound : index < text.lines.length := by simpa using inside
    simp [line?, List.getElem?_eq_getElem bound]

theorem line?_eq_none_iff {text : Text} {line : Nat} :
    text.line? line = none ↔ text.lineCount ≤ line :=
  List.getElem?_eq_none_iff

/-- A line starts where the pieces before it end. -/
theorem lineStart_eq (text : Text) (line : Nat) :
    text.lineStart line = ((pieces text.lines text.terminators).take line).flatten.length := by
  rw [pieces_eq, ← List.map_take, ← List.flatMap_def]
  rfl

/-- The first column of a line is its start. -/
theorem offset?_column_zero (text : Text) (line : UInt32) :
    text.offset? ⟨line, 0⟩ =
      if line.toNat < text.lineCount then some (text.lineStart line.toNat) else none := by
  unfold offset? before?
  by_cases inside : line.toNat < text.lineCount
  · have bound : line.toNat < text.lines.length := inside
    have found : text.line? line.toNat = some text.lines[line.toNat] :=
      List.getElem?_eq_getElem bound
    simp [found, inside, Utf16.splitAt?]
  · have missing : text.line? line.toNat = none := line?_eq_none_iff.mpr (by omega)
    simp [missing, inside]

/-- A character that is part of no line break is inside of a line, between the end of a line of the
text before it and the start of a line of the text behind it. -/
theorem exists_lines_of_solid {c : Char} (solid : ¬ IsBreak c) (front back : List Char) :
    ∃ above before after below,
      lines ⟨front⟩ = above ++ [before] ∧ lines ⟨back⟩ = after :: below ∧
      lines ⟨front ++ c :: back⟩ = above ++ (before ++ c :: after) :: below := by
  have apart : ¬ Joins front (c :: back) := by
    rintro ⟨-, feed⟩
    exact solid (.inr (Option.some.inj feed))
  obtain ⟨after, below, behind⟩ := List.exists_cons_of_ne_nil (lines_ne_nil ⟨back⟩)
  have first : lines ⟨c :: back⟩ = (c :: after) :: below :=
    lines_append_of_unbroken (unbroken_singleton.mpr solid) behind
  have ahead := List.dropLast_concat_getLast (lines_ne_nil ⟨front⟩)
  refine ⟨_, _, after, below, ahead.symm, behind, ?_⟩
  rw [lines_append ahead.symm first, if_neg apart]

theorem not_isBreak_of_mem_separators {c : Char} (member : c ∈ separators) : ¬ IsBreak c := by
  rintro (rfl | rfl)
  · exact absurd member (by decide)
  · exact absurd member (by decide)

/-- However many replacements made a text, it is its lines, which hold no carriage return and no line
feed, with its terminators between them, and it can be written so with no other lines and no other
terminators. Each line is its piece without the line break. The numbers below the count of the lines
name them in order, and no other number names one. The first column of a line denotes the length of
the pieces before the line. What else Unicode ends lines with stands inside of a line. -/
theorem lines_decompose (text : Text) (calls : List Replacement) :
    let result := text.replaceAll calls
    (∀ lines terminators, Decomposes lines terminators result.chars ↔
      lines = result.lines ∧ terminators = result.terminators) ∧
    (pieces result.lines result.terminators).map trimBreak = result.lines ∧
    (List.range result.lineCount).map result.line? = result.lines.map some ∧
    (∀ line : Nat, result.line? line = none ↔ result.lineCount ≤ line) ∧
    (∀ line : UInt32, result.resolve ⟨line, 0⟩ =
      if line.toNat < result.lineCount then
        .ok ((pieces result.lines result.terminators).take line.toNat).flatten.length
      else .error (.invalidPosition ⟨line, 0⟩)) ∧
    ∀ c ∈ separators, ∀ front back, result.chars = front ++ c :: back →
      ∃ above before after below,
        lines ⟨front⟩ = above ++ [before] ∧ lines ⟨back⟩ = after :: below ∧
        result.lines = above ++ (before ++ c :: after) :: below := by
  intro result
  refine ⟨result.decomposes_iff, result.map_trimBreak_pieces, result.map_line?_range,
    fun line => line?_eq_none_iff, ?_, ?_⟩
  · intro line
    have found := result.offset?_column_zero line
    by_cases inside : line.toNat < result.lineCount
    · rw [if_pos inside, lineStart_eq] at found
      rw [if_pos inside]
      exact resolve_eq_ok.mpr found
    · rw [if_neg inside] at found ⊢
      exact resolve_eq_error.mpr ⟨found, rfl⟩
  · intro c member front back parts
    have whole : result = ⟨front ++ c :: back⟩ := congrArg Text.mk parts
    rw [whole]
    exact exists_lines_of_solid (not_isBreak_of_mem_separators member) front back

/-- Where a line feed is taken away from a carriage return, or put behind one, the lines stay. -/
example :
    let text := replaceAll ⟨['a', '\r', '\n', '\u2028', 'b', '\r']⟩ [⟨2, 3, []⟩, ⟨5, 5, ['\n']⟩]
    text.lines = [['a'], ['\u2028', 'b'], []] ∧ text.terminators = [['\r'], ['\r', '\n']] := by
  decide

end Text

end LanguageServer
