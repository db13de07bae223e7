import LanguageServer.Proofs.Quoting
/-!
# Line breaks and diagnostics

A line break between two texts puts the lines of the second one below those of the first one
(`lines_append_break`), unless a carriage return and a line feed meet at the seam. As each line is
judged by itself, the diagnostics of the whole are then those of the first text and those of the
second one, moved down (`Stacks`). Which of the three line breaks a text has does not matter at all:
with other ones it has the same lines (`lines_rebreak`).
-/

namespace LanguageServer

def Position.moveDown (count : Nat) (position : Position) : Position :=
  { position with line := position.line + .ofNat count }

/-- The diagnostic when the text that it is about stands below some more lines. -/
def Diagnostic.moveDown (count : Nat) (diagnostic : Diagnostic) : Diagnostic :=
  { diagnostic with
    range := ⟨diagnostic.range.start.moveDown count, diagnostic.range.stop.moveDown count⟩ }

/-- The characters with one and the same line break in the place of each. -/
def rebreak (ending : Ending) : List Char → List Char
  | [] => []
  | '\r' :: '\n' :: rest => ending.chars ++ rebreak ending rest
  | '\r' :: rest => ending.chars ++ rebreak ending rest
  | '\n' :: rest => ending.chars ++ rebreak ending rest
  | c :: rest => c :: rebreak ending rest

namespace Text

/-! ## Lines on both sides of a line break -/

/-- A line break at the start ends an empty first line. -/
theorem lines_break_append {ending : Ending} (broken : ending ≠ .none) {back : List Char}
    (behind : ¬(ending = .cr ∧ back.head? = some '\n')) :
    lines ⟨ending.chars ++ back⟩ = [] :: lines ⟨back⟩ := by
  have ends : Line.Ends ⟨[], ending⟩ back :=
    ⟨unbroken_nil, broken, fun carriage feed => behind ⟨carriage, feed⟩⟩
  exact lines_append_of_ends ends

theorem lines_append_break {ending : Ending} (broken : ending ≠ .none) {front back : List Char}
    (ahead : ¬(ending = .lf ∧ front.getLast? = some '\r'))
    (behind : ¬(ending = .cr ∧ back.head? = some '\n')) :
    lines ⟨front ++ ending.chars ++ back⟩ = lines ⟨front⟩ ++ lines ⟨back⟩ := by
  have apart : ¬Joins front (ending.chars ++ back) := by
    rintro ⟨carriage, feed⟩
    cases ending with
    | none => exact broken rfl
    | lf => exact ahead ⟨rfl, carriage⟩
    | cr | crlf => simp [Ending.chars] at feed
  rw [List.append_assoc]
  exact lines_append_of_empty apart (lines_break_append broken behind)

/-- A line feed behind a carriage return is no line break of its own. -/
theorem lines_append_line_feed {front : List Char} (carriage : front.getLast? = some '\r')
    (back : List Char) :
    lines ⟨front ++ Ending.lf.chars ++ back⟩ = (lines ⟨front⟩).dropLast ++ lines ⟨back⟩ := by
  have joins : Joins front (Ending.lf.chars ++ back) := ⟨carriage, rfl⟩
  have ahead := List.dropLast_concat_getLast (lines_ne_nil ⟨front⟩)
  have behind : lines ⟨Ending.lf.chars ++ back⟩ = [] :: lines ⟨back⟩ :=
    lines_break_append (by simp) (by simp)
  rw [List.append_assoc, lines_append ahead.symm behind, if_pos joins]

/-! ## Other line breaks -/

theorem head?_rebreak_cr (chars : List Char) :
    (rebreak .cr chars).head? ≠ some '\n' := by
  fun_cases rebreak .cr chars with
  | case1 => simp
  | case2 | case3 | case4 => simp [Ending.chars]
  | case5 c rest notCrlf notCr notLf => simpa using notLf

/-- Other line breaks leave the lines as they are. -/
theorem lines_rebreak {ending : Ending} (broken : ending ≠ .none) (chars : List Char) :
    lines ⟨rebreak ending chars⟩ = lines ⟨chars⟩ := by
  have apart (rest : List Char) : ¬(ending = .cr ∧ (rebreak ending rest).head? = some '\n') := by
    rintro ⟨rfl, feed⟩
    exact head?_rebreak_cr rest feed
  fun_induction rebreak ending chars with
  | case1 => rfl
  | case2 rest ih =>
    have crlf : lines ⟨Ending.crlf.chars ++ rest⟩ = [] :: lines ⟨rest⟩ :=
      lines_break_append (by simp) (by simp)
    rw [lines_break_append broken (apart rest), ih]
    exact crlf.symm
  | case3 rest alone ih =>
    have cr : lines ⟨Ending.cr.chars ++ rest⟩ = [] :: lines ⟨rest⟩ := by
      refine lines_break_append (by simp) ?_
      rintro ⟨-, feed⟩
      obtain ⟨more, rfl⟩ := List.head?_eq_some_iff.mp feed
      exact alone more rfl
    rw [lines_break_append broken (apart rest), ih]
    exact cr.symm
  | case4 rest ih =>
    rw [lines_break_append broken (apart rest), ih]
    exact (lines_line_feed rest).symm
  | case5 c rest notCrlf notCr notLf ih =>
    have solid : Unbroken [c] := unbroken_singleton.mpr fun either => either.elim notCr notLf
    obtain ⟨first, below, behind⟩ := List.exists_cons_of_ne_nil (lines_ne_nil ⟨rest⟩)
    rw [← List.singleton_append, lines_append_of_unbroken solid (ih.trans behind),
      ← lines_append_of_unbroken solid behind, List.singleton_append]

/-- The text with one and the same line break in the place of each. -/
def withBreaks (text : Text) (ending : Ending) : Text := ⟨rebreak ending text.chars⟩

theorem lines_withBreaks (text : Text) {ending : Ending} (broken : ending ≠ .none) :
    (text.withBreaks ending).lines = text.lines :=
  lines_rebreak broken text.chars

/-- Where a position is one of a text follows from the lines. -/
theorem exists_resolve_iff_of_lines {a b : Text} (same : a.lines = b.lines) (position : Position) :
    (∃ offset, a.resolve position = .ok offset) ↔ ∃ offset, b.resolve position = .ok offset := by
  have before : a.before? position = b.before? position := by
    unfold before? line?
    rw [same]
  have accepted (text : Text) :
      (∃ offset, text.resolve position = .ok offset) ↔ (text.before? position).isSome := by
    simp only [resolve_eq_ok, ← Option.isSome_iff_exists, offset?, Option.isSome_map]
  rw [accepted, accepted, before]

end Text

namespace Diagnostic

/-! ## Diagnostics on both sides of a line break -/

theorem ofLine?_add (number count : Nat) (line : List Char) :
    ofLine? (number + count) line = (ofLine? number line).map (moveDown count) := by
  unfold ofLine?
  rw [Option.map_map]
  congr 1
  funext header
  simp [ofHeader, moveDown, Position.moveDown, Position.ofNat, UInt32.ofNat_add]

theorem ofLines_add (first count : Nat) (lines : List (List Char)) :
    ofLines (first + count) lines = (ofLines first lines).map (moveDown count) := by
  induction lines generalizing first with
  | nil => rfl
  | cons line rest ih =>
    have next : first + count + 1 = first + 1 + count := by omega
    rw [ofLines, ofLines, ofLine?_add, next, ih, List.map_append, Option.toList_map]

/-- A text whose lines and diagnostics are those of two texts, of which the second one starts below
a number of lines. -/
structure Stacks (whole upper lower : Text) (count : Nat) : Prop where
  lineCount_eq : whole.lineCount = count + lower.lineCount
  scan_eq : scan whole = scan upper ++ (scan lower).map (moveDown count)
  /-- The line numbers are added, without a carry over 2³². -/
  line_eq : whole.lineCount < UInt32.size → ∀ diagnostic ∈ scan lower,
    (diagnostic.moveDown count).range.start.line.toNat =
      diagnostic.range.start.line.toNat + count ∧
    (diagnostic.moveDown count).range.stop.line.toNat =
      diagnostic.range.stop.line.toNat + count

theorem stacks_of_lines {whole upper lower : Text} {front : List (List Char)}
    (lines_eq : whole.lines = front ++ lower.lines) (same : ofLines 0 front = scan upper) :
    Stacks whole upper lower front.length := by
  have counted : whole.lineCount = front.length + lower.lineCount := by
    rw [Text.lineCount, lines_eq, List.length_append, Text.lineCount]
  refine ⟨counted, ?_, ?_⟩
  · show ofLines 0 whole.lines = _
    rw [lines_eq, ofLines_append, same, ofLines_add]
    rfl
  · intro bound diagnostic member
    obtain ⟨ahead, line, back, lower_eq, about⟩ := mem_ofLines.mp member
    rw [Nat.zero_add] at about
    have inside : ahead.length < lower.lineCount := by
      rw [Text.lineCount, lower_eq, List.length_append, List.length_cons]
      omega
    obtain ⟨start, stop⟩ := line_of_ofLine? about
    have sum : (UInt32.ofNat ahead.length + UInt32.ofNat front.length).toNat =
        (UInt32.ofNat ahead.length).toNat + front.length := by
      rw [← UInt32.ofNat_add, UInt32.toNat_ofNat_of_lt' (by omega),
        UInt32.toNat_ofNat_of_lt' (by omega)]
    simp only [moveDown, Position.moveDown, start, stop]
    exact ⟨sum, sum⟩

/-- A carriage return at the end brings no diagnostic. -/
theorem scan_concat_carriage_return (front : List Char) :
    scan ⟨front ++ ['\r']⟩ = ofLines 0 (Text.lines ⟨front⟩) := by
  have empty (number : Nat) : ofLines number [[]] = [] := rfl
  rw [scan, Text.lines_concat_carriage_return, ofLines_append, empty, List.append_nil]

/-- With a line break between them, two texts have the lines of both and the diagnostics of both,
where those of the second text are as many lines further down as the first text has lines. A line
feed that follows a carriage return is the exception: both are one line break, and the empty line
at the end of the first text is no more. All line breaks of a text can be replaced by one and the
same without changing the diagnostics or the positions that an edit takes. -/
theorem scan_of_breaks (ending : Ending) (broken : ending ≠ .none) :
    (∀ front back : List Char, ¬(ending = .lf ∧ front.getLast? = some '\r') →
      ¬(ending = .cr ∧ back.head? = some '\n') →
      Stacks ⟨front ++ ending.chars ++ back⟩ ⟨front⟩ ⟨back⟩ (Text.lineCount ⟨front⟩)) ∧
    (∀ front back : List Char, ending = .lf → front.getLast? = some '\r' →
      Stacks ⟨front ++ ending.chars ++ back⟩ ⟨front⟩ ⟨back⟩ (Text.lineCount ⟨front⟩ - 1)) ∧
    ∀ text : Text, scan (text.withBreaks ending) = scan text ∧
      ∀ position, (∃ offset, (text.withBreaks ending).resolve position = .ok offset) ↔
        ∃ offset, text.resolve position = .ok offset := by
  refine ⟨?_, ?_, ?_⟩
  · intro front back ahead behind
    exact stacks_of_lines (Text.lines_append_break broken ahead behind) rfl
  · rintro front back rfl carriage
    have lines_eq := Text.lines_append_line_feed carriage back
    obtain ⟨before, rfl⟩ := List.getLast?_eq_some_iff.mp carriage
    have count : Text.lineCount ⟨before ++ ['\r']⟩ - 1 = (Text.lines ⟨before⟩).length := by
      rw [Text.lineCount, Text.lines_concat_carriage_return, List.length_append]
      rfl
    rw [Text.lines_concat_carriage_return, List.dropLast_concat] at lines_eq
    rw [count]
    exact stacks_of_lines lines_eq (scan_concat_carriage_return before).symm
  · intro text
    have same := text.lines_withBreaks broken
    exact ⟨by rw [scan, scan, same], Text.exists_resolve_iff_of_lines same⟩

/-- A line feed in front of a carriage return with a line feed makes a line of its own, and behind a
carriage return it does not. -/
theorem scan_of_breaks_line_feed :
    let front := "page A B:".toList
    let back := "model C D:".toList
    Ending.lf ≠ .none ∧ ¬(Ending.lf = .lf ∧ front.getLast? = some '\r') ∧
    ¬(Ending.lf = .cr ∧ ('\r' :: '\n' :: back).head? = some '\n') ∧
    (front ++ ['\r']).getLast? = some '\r' ∧
    Text.lineCount ⟨front ++ '\n' :: '\r' :: '\n' :: back⟩ = 3 ∧
    (scan ⟨front ++ '\n' :: '\r' :: '\n' :: back⟩).map (·.range.start.line) = [0, 2] ∧
    Text.lineCount ⟨front ++ '\r' :: '\n' :: back⟩ = 2 ∧
    (scan ⟨front ++ '\r' :: '\n' :: back⟩).map (·.range.start.line) = [0, 1] ∧
    scan ⟨front ++ '\n' :: '\n' :: back⟩ = scan ⟨front ++ '\r' :: '\r' :: '\n' :: back⟩ := by
  intro front back
  have broken : Ending.lf ≠ .none := by decide
  have ahead : ¬(Ending.lf = .lf ∧ front.getLast? = some '\r') := by decide
  have behind : ¬(Ending.lf = .cr ∧ ('\r' :: '\n' :: back).head? = some '\n') := by decide
  have carriage : (front ++ ['\r']).getLast? = some '\r' := by decide
  obtain ⟨apart, joined, same⟩ := scan_of_breaks .lf broken
  have three := apart front ('\r' :: '\n' :: back) ahead behind
  have two := joined (front ++ ['\r']) back rfl carriage
  refine ⟨broken, ahead, behind, carriage, three.lineCount_eq, ?_, two.lineCount_eq, ?_,
    (same ⟨front ++ '\r' :: '\r' :: '\n' :: back⟩).1⟩
  · refine (congrArg (List.map _) three.scan_eq).trans ?_
    decide +kernel
  · refine (congrArg (List.map _) two.scan_eq).trans ?_
    decide +kernel

end Diagnostic

end LanguageServer
