import LanguageServer.Document
import LanguageServer.Proofs.Document
import LanguageServer.Proofs.Line
import LanguageServer.Proofs.Utf16
/-!
# Positions and offsets

A position that denotes an offset cuts the text: into the lines before, the two parts of a line,
and the lines behind (`Cut`). Positions and the offsets outside of line breaks are in a one-to-one
correspondence that keeps their order (`positions_iso_offsets`).
-/

namespace LanguageServer

theorem getElem?_eq_some_iff_append {α : Type} {list : List α} {index : Nat} {item : α} :
    list[index]? = some item ↔
      ∃ front back, list = front ++ item :: back ∧ front.length = index := by
  constructor
  · intro found
    obtain ⟨bound, rfl⟩ := List.getElem?_eq_some_iff.mp found
    refine ⟨list.take index, list.drop (index + 1), ?_, by simp; omega⟩
    rw [List.getElem_cons_drop bound, List.take_append_drop]
  · rintro ⟨front, back, rfl, rfl⟩
    simp

namespace Text

/-- A text in the parts into which a position cuts it. -/
structure Cut (text : Text) (position : Position) where
  front : List Line
  before : List Char
  after : List Char
  ending : Ending
  back : List Line
  split_eq : Line.split text.chars = front ++ ⟨before ++ after, ending⟩ :: back
  length_front : front.length = position.line.toNat
  width_before : Utf16.width before = position.character.toNat

namespace Cut

variable {text : Text} {position : Position}

def offset (cut : text.Cut position) : Nat :=
  (cut.front.flatMap Line.chars).length + cut.before.length

/-- What follows the cut line, with the ending of that line. -/
def rest (cut : text.Cut position) : List Char :=
  cut.ending.chars ++ cut.back.flatMap Line.chars

theorem linked (cut : text.Cut position) :
    Line.Linked (cut.front ++ ⟨cut.before ++ cut.after, cut.ending⟩ :: cut.back) :=
  cut.split_eq ▸ Line.linked_split text.chars

theorem linked_back (cut : text.Cut position) :
    Line.Linked (⟨cut.before ++ cut.after, cut.ending⟩ :: cut.back) :=
  cut.linked.of_append (List.cons_ne_nil _ _)

theorem unbroken (cut : text.Cut position) : Unbroken (cut.before ++ cut.after) :=
  cut.linked_back.unbroken

theorem chars_eq (cut : text.Cut position) :
    text.chars =
      cut.front.flatMap Line.chars ++ cut.before ++ (cut.after ++ cut.rest) := by
  rw [← Line.flatMap_chars_split text.chars, cut.split_eq]
  simp [Line.chars, rest]

theorem take_offset (cut : text.Cut position) :
    text.chars.take cut.offset = cut.front.flatMap Line.chars ++ cut.before := by
  rw [cut.chars_eq]
  exact List.take_left' (by simp [offset])

theorem drop_offset (cut : text.Cut position) :
    text.chars.drop cut.offset = cut.after ++ cut.rest := by
  rw [cut.chars_eq]
  exact List.drop_left' (by simp [offset])

theorem offset_le (cut : text.Cut position) : cut.offset ≤ text.size := by
  have lengths := congrArg List.length cut.chars_eq
  simp only [List.length_append] at lengths
  simp only [offset, size]
  omega

end Cut

/-- What precedes a position on its line is what the position cuts off. -/
theorem before?_eq_some_iff {text : Text} {position : Position} {before : List Char} :
    text.before? position = some before ↔ ∃ cut : text.Cut position, cut.before = before := by
  simp only [before?, line?, lines, Option.bind_eq_bind, Option.bind_eq_some_iff,
    List.getElem?_map, Option.map_eq_some_iff, Option.some.injEq, Prod.exists,
    Utf16.splitAt?_eq_some_iff, getElem?_eq_some_iff_append]
  constructor
  · rintro ⟨_, ⟨line, ⟨front, back, split_eq, number⟩, rfl⟩, before, after, ⟨parts, wide⟩, rfl⟩
    have line_eq : line = ⟨before ++ after, line.ending⟩ := by rw [← parts]
    exact ⟨⟨front, before, after, line.ending, back, line_eq ▸ split_eq, number, wide⟩, rfl⟩
  · rintro ⟨cut, rfl⟩
    exact ⟨_, ⟨_, ⟨cut.front, cut.back, cut.split_eq, cut.length_front⟩, rfl⟩,
      cut.before, cut.after, ⟨rfl, cut.width_before⟩, rfl⟩

theorem Cut.lineStart_eq {text : Text} {position : Position} (cut : text.Cut position) :
    text.lineStart position.line.toNat = (cut.front.flatMap Line.chars).length := by
  rw [lineStart, cut.split_eq, ← cut.length_front, List.take_left' rfl]

/-- A position denotes an offset if it cuts the text there. -/
theorem offset?_eq_some_iff {text : Text} {position : Position} {offset : Nat} :
    text.offset? position = some offset ↔ ∃ cut : text.Cut position, cut.offset = offset := by
  simp only [offset?, Option.map_eq_some_iff, before?_eq_some_iff]
  constructor
  · rintro ⟨_, ⟨cut, rfl⟩, rfl⟩
    exact ⟨cut, by rw [cut.lineStart_eq]; rfl⟩
  · rintro ⟨cut, rfl⟩
    exact ⟨cut.before, ⟨cut, rfl⟩, by rw [cut.lineStart_eq]; rfl⟩

/-! ## From offsets to positions -/

/-- An offset lies on the line whose characters it parts. -/
theorem locate_append (front back : List Line) (line : Line) {count : Nat}
    (h : count < line.length ∨ back = []) :
    locate (front ++ line :: back) ((front.flatMap Line.chars).length + count) =
      (front.length, line.chars.take count) := by
  induction front with
  | nil =>
    simp only [List.nil_append, List.flatMap_nil, List.length_nil, Nat.zero_add]
    cases back with
    | nil => rfl
    | cons next rest =>
      have inside : count < line.length := h.resolve_right (by simp)
      rw [locate, if_pos inside]
      simp
  | cons first more ih =>
    have behind : ¬ (((first :: more).flatMap Line.chars).length + count < first.length) := by
      simp only [List.flatMap_cons, List.length_append, Line.length]
      omega
    have left : ((first :: more).flatMap Line.chars).length + count - first.length =
        (more.flatMap Line.chars).length + count := by
      simp only [List.flatMap_cons, List.length_append, Line.length]
      omega
    rw [List.cons_append, locate, if_neg behind, left, ih]
    · rfl
    · simp

/-- Every offset up to the end parts some line, and at its end only the last one. -/
theorem exists_line_at {lines : List Line} (nonempty : lines ≠ []) {offset : Nat}
    (h : offset ≤ (lines.flatMap Line.chars).length) :
    ∃ front line back count, lines = front ++ line :: back ∧
      offset = (front.flatMap Line.chars).length + count ∧
      (count < line.length ∨ back = [] ∧ count ≤ line.length) := by
  induction lines generalizing offset with
  | nil => contradiction
  | cons line rest ih =>
    by_cases inside : offset < line.length
    · exact ⟨[], line, rest, offset, rfl, by simp, .inl inside⟩
    · simp only [List.flatMap_cons, List.length_append] at h
      by_cases last : rest = []
      · subst last
        simp only [List.flatMap_nil, List.length_nil] at h
        exact ⟨[], line, [], offset, rfl, by simp, .inr ⟨rfl, h⟩⟩
      · have bound : offset - line.length ≤ (rest.flatMap Line.chars).length := by
          simp only [Line.length]
          omega
        obtain ⟨front, found, back, count, rfl, reached, within⟩ := ih last bound
        refine ⟨line :: front, found, back, count, rfl, ?_, within⟩
        simp only [List.flatMap_cons, List.length_append]
        simp only [Line.length] at inside reached
        omega

theorem line_ofNat {line : Nat} (h : line < UInt32.size) (character : Nat) :
    (Position.ofNat line character).line.toNat = line :=
  UInt32.toNat_ofNat_of_lt' h

theorem character_ofNat {character : Nat} (h : character < UInt32.size) (line : Nat) :
    (Position.ofNat line character).character.toNat = character :=
  UInt32.toNat_ofNat_of_lt' h

/-- An offset inside of a line break of two characters. -/
def Splits (text : Text) (offset : Nat) : Prop :=
  Joins (text.chars.take offset) (text.chars.drop offset)

instance (text : Text) (offset : Nat) : Decidable (text.Splits offset) :=
  inferInstanceAs (Decidable (Joins _ _))

namespace Cut

variable {text : Text} {position : Position}

/-- A part of a cut line that has an ending is shorter than the line. -/
theorem length_before_lt (cut : text.Cut position) :
    cut.before.length < Line.length ⟨cut.before ++ cut.after, cut.ending⟩ ∨ cut.back = [] := by
  by_cases last : cut.back = []
  · exact .inr last
  · have ended := mt cut.linked_back.ending_eq_none_iff.mp last
    left
    simp only [Line.length, Line.chars, List.length_append]
    cases ending : cut.ending with
    | none => exact absurd ending ended
    | lf | cr | crlf => simp only [Ending.chars, List.length_cons]; omega

/-- The position that denotes an offset is the position of that offset. -/
theorem positionOf_offset (cut : text.Cut position) :
    text.positionOf cut.offset = position := by
  have part : Line.chars ⟨cut.before ++ cut.after, cut.ending⟩ =
      cut.before ++ (cut.after ++ cut.ending.chars) := by
    simp [Line.chars]
  rw [positionOf, cut.split_eq, offset, locate_append _ _ _ cut.length_before_lt, part,
    List.take_left]
  simp only [Position.ofNat, cut.length_front, cut.width_before, UInt32.ofNat_toNat]

/-- No position denotes an offset inside of a line break. -/
theorem not_splits (cut : text.Cut position) : ¬ text.Splits cut.offset := by
  rintro ⟨carriage, feed⟩
  rw [cut.take_offset] at carriage
  rw [cut.drop_offset] at feed
  by_cases start : cut.before = []
  · apply cut.linked.not_joins (List.cons_ne_nil _ _)
    refine ⟨by simpa [start] using carriage, ?_⟩
    simpa [start, Line.chars, rest] using feed
  · have unbroken := (unbroken_append.mp cut.unbroken).1
    exact unbroken.ne_of_getLast start (.inl rfl) carriage

end Cut

/-- Behind the body of a line that goes on, only a line break of two characters leaves room for
an offset. -/
theorem eq_crlf_of_inside {line : Line} {back : List Line} {count : Nat}
    (linked : Line.Linked (line :: back)) (behind : line.body.length < count)
    (within : count < line.length ∨ back = [] ∧ count ≤ line.length) :
    line.ending = .crlf ∧ count = line.body.length + 1 := by
  have last := linked.ending_eq_none_iff
  simp only [Line.length, Line.chars, List.length_append] at within
  cases ending : line.ending with
  | none =>
    simp only [ending, Ending.chars, List.length_nil] at within
    omega
  | lf | cr =>
    have goes_on : back ≠ [] := fun empty => by simp [ending, empty] at last
    simp only [ending, Ending.chars, List.length_cons, List.length_nil, goes_on, false_and,
      or_false] at within
    omega
  | crlf =>
    have goes_on : back ≠ [] := fun empty => by simp [ending, empty] at last
    simp only [ending, Ending.chars, List.length_cons, List.length_nil, goes_on, false_and,
      or_false] at within
    exact ⟨rfl, by omega⟩

section

variable {text : Text} {position : Position} {front back : List Line} {line : Line} {count : Nat}
  (split_eq : Line.split text.chars = front ++ line :: back)

include split_eq

/-- The position of an offset has the number of the line in which the offset lies, and the width of
what precedes it there. -/
theorem toNat_positionOf (lines : text.lineCount < UInt32.size)
    (units : Utf16.width text.chars < UInt32.size) (within : count < line.length ∨ back = []) :
    let position := text.positionOf ((front.flatMap Line.chars).length + count)
    position.line.toNat = front.length ∧
      position.character.toNat = Utf16.width (line.chars.take count) := by
  intro position
  have place : position = .ofNat front.length (Utf16.width (line.chars.take count)) := by
    rw [show position = text.positionOf _ from rfl, positionOf, split_eq, locate_append _ _ _ within]
  rw [place]
  constructor
  · apply line_ofNat
    simp only [lineCount, Text.lines, split_eq, List.length_map, List.length_append,
      List.length_cons] at lines
    omega
  · apply character_ofNat
    have whole := Line.flatMap_chars_split text.chars
    rw [split_eq] at whole
    have parts := congrArg Utf16.width (List.take_append_drop count line.chars)
    have total := congrArg Utf16.width whole
    simp only [List.flatMap_append, List.flatMap_cons, Utf16.width_append] at parts total
    omega

/-- A text is cut at every offset up to the end of the body of a line. -/
theorem exists_cut_of_le_body (number : position.line.toNat = front.length)
    (column : position.character.toNat = Utf16.width (line.chars.take count))
    (inside : count ≤ line.body.length) :
    ∃ cut : text.Cut position, cut.offset = (front.flatMap Line.chars).length + count := by
  have part : line.chars.take count = line.body.take count :=
    List.take_append_of_le_length inside
  let cut : text.Cut position :=
    { front, back
      before := line.body.take count
      after := line.body.drop count
      ending := line.ending
      split_eq := by rwa [List.take_append_drop]
      length_front := number.symm
      width_before := by rw [column, part] }
  refine ⟨cut, ?_⟩
  simp [cut, Cut.offset, inside]

/-- Behind the carriage return of a line break of two characters an offset is inside of the line
break. -/
theorem splits_of_crlf (crlf : line.ending = .crlf) :
    text.Splits ((front.flatMap Line.chars).length + (line.body.length + 1)) := by
  have parts : text.chars = front.flatMap Line.chars ++ line.body ++ ['\r'] ++
      ('\n' :: back.flatMap Line.chars) := by
    rw [← Line.flatMap_chars_split text.chars, split_eq]
    simp [Line.chars, crlf, Ending.chars]
  rw [Splits, parts, List.take_left' (by simp), List.drop_left' (by simp)]
  exact ⟨by simp, rfl⟩

/-- No position beyond the body of its line denotes an offset. -/
theorem offset?_eq_none_of_wider (number : position.line.toNat = front.length)
    (wider : Utf16.width line.body < position.character.toNat) : text.offset? position = none := by
  rw [Option.eq_none_iff_forall_ne_some]
  intro offset found
  obtain ⟨cut, -⟩ := offset?_eq_some_iff.mp found
  have fronts : front.length = cut.front.length := by rw [cut.length_front, number]
  obtain ⟨-, rest⟩ := List.append_inj (split_eq.symm.trans cut.split_eq) fronts
  have body : line.body = cut.before ++ cut.after := congrArg Line.body (List.cons.inj rest).1
  have total := congrArg Utf16.width body
  rw [Utf16.width_append, cut.width_before] at total
  omega

end

/-- The position of an offset denotes it, unless the offset is inside of a line break. -/
theorem offset?_positionOf {text : Text} (lines : text.lineCount < UInt32.size)
    (units : Utf16.width text.chars < UInt32.size) {offset : Nat} (h : offset ≤ text.size) :
    text.offset? (text.positionOf offset) =
      if text.Splits offset then none else some offset := by
  have linked := Line.linked_split text.chars
  have bound : offset ≤ ((Line.split text.chars).flatMap Line.chars).length := by
    rwa [Line.flatMap_chars_split]
  obtain ⟨front, line, back, count, split_eq, rfl, within⟩ :=
    exists_line_at linked.ne_nil bound
  obtain ⟨number, column⟩ :=
    toNat_positionOf split_eq lines units (within.imp_right And.left)
  by_cases inside : count ≤ line.body.length
  · obtain ⟨cut, reached⟩ := exists_cut_of_le_body split_eq number column inside
    rw [if_neg (reached ▸ cut.not_splits)]
    exact offset?_eq_some_iff.mpr ⟨cut, reached⟩
  · rw [split_eq] at linked
    obtain ⟨crlf, rfl⟩ :=
      eq_crlf_of_inside (linked.of_append (List.cons_ne_nil _ _)) (by omega) within
    rw [if_pos (splits_of_crlf split_eq crlf)]
    apply offset?_eq_none_of_wider split_eq number
    -- The column counts the carriage return, which is not part of the body.
    have half : line.chars.take (line.body.length + 1) = line.body ++ ['\r'] := by
      rw [Line.chars, crlf]
      exact List.take_length_add_append 1
    rw [column, half, Utf16.width_append]
    exact Nat.lt_add_of_pos_right (Utf16.width_pos (List.cons_ne_nil _ _))

/-! ## The order of positions -/

theorem lt_trichotomy (p q : Position) : p < q ∨ p = q ∨ q < p := by
  obtain ⟨line, character⟩ := p
  obtain ⟨line', character'⟩ := q
  change (line < line' ∨ line = line' ∧ character < character') ∨ _ ∨
    (line' < line ∨ line' = line ∧ character' < character)
  simp only [Position.mk.injEq, UInt32.lt_iff_toNat_lt, ← UInt32.toNat_inj]
  omega

/-- Of two positions in a text, the earlier one denotes the smaller offset. -/
theorem Cut.offset_lt_offset {text : Text} {p q : Position} (a : text.Cut p) (b : text.Cut q)
    (h : p < q) : a.offset < b.offset := by
  have same := a.split_eq.symm.trans b.split_eq
  have la := a.length_front
  have lb := b.length_front
  rcases h with earlier | ⟨line, column⟩
  · have fewer : a.front.length < b.front.length := by
      rw [UInt32.lt_iff_toNat_lt] at earlier
      omega
    rcases List.append_eq_append_iff.mp same with ⟨more, front, tail⟩ | ⟨more, front, -⟩
    · cases more with
      | nil => simp [front] at fewer
      | cons line rest =>
        obtain ⟨rfl, back⟩ := List.cons.inj tail
        have shorter := a.length_before_lt.resolve_right (by simp [back])
        simp only [offset, front, List.flatMap_append, List.flatMap_cons, List.length_append]
        simp only [Line.length] at shorter
        omega
    · have lengths := congrArg List.length front
      simp only [List.length_append] at lengths
      omega
  · obtain ⟨fronts, tail⟩ := List.append_inj same (by rw [la, lb, line])
    have body : a.before ++ a.after = b.before ++ b.after :=
      congrArg Line.body (List.cons.inj tail).1
    have longer := (Utf16.width_lt_iff body).mp
      (by rw [a.width_before, b.width_before]; exact UInt32.lt_iff_toNat_lt.mp column)
    simp only [offset, fronts]
    omega

/-- A position in a text is before another one if the offset it denotes is. -/
theorem lt_iff_of_offset? {text : Text} {p q : Position} {a b : Nat}
    (hp : text.offset? p = some a) (hq : text.offset? q = some b) : p < q ↔ a < b := by
  obtain ⟨first, rfl⟩ := offset?_eq_some_iff.mp hp
  obtain ⟨second, rfl⟩ := offset?_eq_some_iff.mp hq
  constructor
  · exact first.offset_lt_offset second
  · intro less
    rcases lt_trichotomy p q with earlier | rfl | later
    · exact earlier
    · have same := Option.some.inj (hp.symm.trans hq)
      omega
    · have := second.offset_lt_offset first later
      omega

/-- Positions and offsets correspond one to one, in the same order, except that no position denotes
an offset inside of a line break. -/
theorem positions_iso_offsets (text : Text) (lines : text.lineCount < UInt32.size)
    (units : Utf16.width text.chars < UInt32.size) :
    (∀ offset, offset ≤ text.size → text.resolve (text.positionOf offset) =
      if text.Splits offset then .error (.invalidPosition (text.positionOf offset))
      else .ok offset) ∧
    (∀ position offset, text.resolve position = .ok offset →
      text.positionOf offset = position) ∧
    (∀ p q a b, text.resolve p = .ok a → text.resolve q = .ok b → (p < q ↔ a < b)) ∧
    ∀ offset, (∃ position, text.resolve position = .ok offset) ↔
      offset ≤ text.size ∧ ¬ text.Splits offset := by
  simp only [resolve_eq_ok]
  refine ⟨?_, ?_, fun p q a b hp hq => lt_iff_of_offset? hp hq, ?_⟩
  · intro offset bound
    have found := offset?_positionOf lines units bound
    by_cases splits : text.Splits offset
    · rw [if_pos splits] at found ⊢
      exact resolve_eq_error.mpr ⟨found, rfl⟩
    · rw [if_neg splits] at found ⊢
      exact resolve_eq_ok.mpr found
  · intro position offset found
    obtain ⟨cut, rfl⟩ := offset?_eq_some_iff.mp found
    exact cut.positionOf_offset
  · intro offset
    constructor
    · rintro ⟨position, found⟩
      obtain ⟨cut, rfl⟩ := offset?_eq_some_iff.mp found
      exact ⟨cut.offset_le, cut.not_splits⟩
    · rintro ⟨bound, whole⟩
      have found := offset?_positionOf lines units bound
      rw [if_neg whole] at found
      exact ⟨text.positionOf offset, found⟩

theorem positions_iso_offsets_crlf :
    let text : Text := ⟨['a', '\r', '\n', '\r', '👋', 'b']⟩
    text.lineCount < UInt32.size ∧ Utf16.width text.chars < UInt32.size ∧
      text.resolve ⟨0, 2⟩ = .error (.invalidPosition ⟨0, 2⟩) ∧ text.resolve ⟨2, 2⟩ = .ok 5 := by
  intro text
  have lines : text.lineCount < UInt32.size := by decide
  have units : Utf16.width text.chars < UInt32.size := by decide
  have denotes := (positions_iso_offsets text lines units).1
  exact ⟨lines, units, (denotes 2 (by decide)).trans (if_pos (by decide)),
    (denotes 5 (by decide)).trans (if_neg (by decide))⟩

end Text

end LanguageServer
