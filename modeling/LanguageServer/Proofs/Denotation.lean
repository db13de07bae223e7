import LanguageServer.Proofs.Position
/-!
# What a position denotes

`Denotes` says in terms of the characters alone which offset a position stands for: it counts line
starts and code units, and knows nothing of how a text is split. Looking a position up finds exactly
that (`offset?_eq_some_iff_denotes`).
-/

namespace LanguageServer

/-- A line starts at the start of a text and behind each line break, which is a line feed or a
carriage return that no line feed follows. -/
def StartsLine (chars : List Char) (offset : Nat) : Prop :=
  offset = 0 ∨ chars[offset - 1]? = some '\n' ∨
    chars[offset - 1]? = some '\r' ∧ chars[offset]? ≠ some '\n'

instance (chars : List Char) : DecidablePred (StartsLine chars) :=
  fun _ => inferInstanceAs (Decidable (_ ∨ _ ∨ _ ∧ _))

/-- Where the lines start, from the first to the last. -/
def lineStarts (chars : List Char) : List Nat :=
  (List.range (chars.length + 1)).filter (StartsLine chars)

/-- From the start of its line to the offset that a position denotes there are only characters of
that line, and as many as take the code units of its column. -/
def Denotes (chars : List Char) (position : Position) (offset : Nat) : Prop :=
  ∃ start word, (lineStarts chars)[position.line.toNat]? = some start ∧
    word <+: chars.drop start ∧ Unbroken word ∧
    Utf16.width word = position.character.toNat ∧ offset = start + word.length

/-! ## The starts of linked lines -/

theorem filter_range_eq_zero {p : Nat → Prop} [DecidablePred p] {count : Nat} (first : p 0)
    (others : ∀ n, 0 < n → n ≤ count → ¬ p n) :
    (List.range (count + 1)).filter p = [0] := by
  rw [List.range_succ_eq_map, List.filter_cons_of_pos (by simpa using first)]
  refine congrArg (0 :: ·) (List.filter_eq_nil_iff.mpr ?_)
  intro n member
  obtain ⟨m, bound, rfl⟩ := List.mem_map.mp member
  have bound := List.mem_range.mp bound
  simpa using others (m + 1) (by omega) (by omega)

/-- No line starts behind a character that is part of no line break. -/
theorem not_startsLine {body : List Char} (h : Unbroken body) (rest : List Char) {offset : Nat}
    (positive : 0 < offset) (bound : offset ≤ body.length) :
    ¬ StartsLine (body ++ rest) offset := by
  have inside : offset - 1 < body.length := by omega
  have solid := h body[offset - 1] (List.getElem_mem inside)
  have found : (body ++ rest)[offset - 1]? = some body[offset - 1] := by
    rw [List.getElem?_append_left inside, List.getElem?_eq_getElem inside]
  rintro (zero | feed | ⟨carriage, -⟩)
  · omega
  · exact solid (.inr (Option.some.inj (found.symm.trans feed)))
  · exact solid (.inl (Option.some.inj (found.symm.trans carriage)))

theorem lineStarts_of_unbroken {body : List Char} (h : Unbroken body) : lineStarts body = [0] := by
  refine filter_range_eq_zero (.inl rfl) fun offset positive bound => ?_
  simpa using not_startsLine h [] positive bound

/-- Inside of a line that ends no other line starts. -/
theorem Line.Ends.not_startsLine {line : Line} {rest : List Char} (h : line.Ends rest)
    {offset : Nat} (positive : 0 < offset) (bound : offset < line.length) :
    ¬ StartsLine (line.chars ++ rest) offset := by
  simp only [Line.length, Line.chars, List.length_append] at bound
  rw [Line.chars, List.append_assoc]
  by_cases inside : offset ≤ line.body.length
  · exact LanguageServer.not_startsLine h.unbroken _ positive inside
  · cases ending : line.ending with
    | none => exact absurd ending h.ended
    | lf | cr =>
      simp only [ending, Ending.chars, List.length_cons, List.length_nil] at bound
      omega
    | crlf =>
      simp only [ending, Ending.chars, List.length_cons, List.length_nil] at bound
      obtain rfl : offset = line.body.length + 1 := by omega
      simp [StartsLine, Ending.chars]

/-- Behind the ending of a line the lines start as if nothing were before. -/
theorem Line.Ends.startsLine_iff {line : Line} {rest : List Char} (h : line.Ends rest)
    (offset : Nat) :
    StartsLine (line.chars ++ rest) (line.length + offset) ↔ StartsLine rest offset := by
  cases offset with
  | zero =>
    refine iff_of_true (.inr ?_) (.inl rfl)
    have whole := h.whole
    simp only [Line.length, Line.chars, List.length_append, Nat.add_zero]
    cases ending : line.ending with
    | none => exact absurd ending h.ended
    | lf | crlf => simp [Ending.chars]
    | cr =>
      have alone := whole ending
      rw [List.head?_eq_getElem?] at alone
      simp [Ending.chars, List.getElem?_append_right, alone]
  | succ n =>
    simp [StartsLine, Line.length, List.getElem?_append_right]

theorem lineStarts_append_of_ends {line : Line} {rest : List Char} (h : line.Ends rest) :
    lineStarts (line.chars ++ rest) = 0 :: (lineStarts rest).map (line.length + ·) := by
  obtain ⟨count, size⟩ : ∃ count, line.length = count + 1 :=
    Nat.exists_eq_succ_of_ne_zero (mt List.length_eq_zero_iff.mp h.chars_ne_nil)
  have total : (line.chars ++ rest).length + 1 = line.length + (rest.length + 1) := by
    simp only [List.length_append, Line.length]
    omega
  have inner : (List.range line.length).filter (StartsLine (line.chars ++ rest)) = [0] := by
    rw [size]
    refine filter_range_eq_zero (.inl rfl) fun offset positive bound => ?_
    exact h.not_startsLine positive (by omega)
  have outer : ((fun offset => decide (StartsLine (line.chars ++ rest) offset)) ∘
      (line.length + ·)) = fun offset => decide (StartsLine rest offset) := by
    funext offset
    simp [h.startsLine_iff]
  rw [lineStarts, total, List.range_add, List.filter_append, inner, List.filter_map, outer]
  rfl

theorem lineStarts_flatMap {lines : List Line} (h : Line.Linked lines) :
    lineStarts (lines.flatMap Line.chars) =
      (List.range lines.length).map fun index =>
        ((lines.take index).flatMap Line.chars).length := by
  induction h with
  | last unbroken =>
    simpa [Line.chars, Ending.chars] using lineStarts_of_unbroken unbroken
  | next ends _ ih =>
    rw [List.flatMap_cons, lineStarts_append_of_ends ends, ih, List.length_cons,
      List.range_succ_eq_map]
    simp [Function.comp_def, Line.length]

example : lineStarts ['a', '\r', '\n', 'b', '\r', 'c', '\n'] = [0, 3, 5, 7] := by decide

namespace Text

/-- Lines start where the splitting of the text puts them. -/
theorem getElem?_lineStarts {text : Text} {index start : Nat} :
    (lineStarts text.chars)[index]? = some start ↔
      ∃ front line back, Line.split text.chars = front ++ line :: back ∧
        front.length = index ∧ start = (front.flatMap Line.chars).length := by
  have linked := Line.linked_split text.chars
  conv => lhs; rw [← Line.flatMap_chars_split text.chars, lineStarts_flatMap linked]
  constructor
  · intro found
    obtain ⟨bound, rfl⟩ := List.getElem?_eq_some_iff.mp found
    simp only [List.length_map, List.length_range] at bound
    obtain ⟨front, back, split_eq, rfl⟩ :=
      getElem?_eq_some_iff_append.mp (List.getElem?_eq_getElem bound)
    refine ⟨front, _, back, split_eq, rfl, ?_⟩
    rw [List.getElem_map, List.getElem_range, split_eq, List.take_left' rfl]
  · rintro ⟨front, line, back, split_eq, rfl, rfl⟩
    simp [split_eq]

/-- Characters of a line that are part of no line break are in the body of the line. -/
theorem eq_append_of_prefix {line : Line} {back : List Line} {word : List Char}
    (linked : Line.Linked (line :: back)) (solid : Unbroken word)
    (first : word <+: line.chars ++ back.flatMap Line.chars) :
    ∃ after, line.body = word ++ after := by
  rw [Line.chars, List.append_assoc] at first
  obtain ⟨rest, whole⟩ := first
  rcases List.append_eq_append_iff.mp whole with ⟨after, body, -⟩ | ⟨more, longer, ending⟩
  · exact ⟨after, body⟩
  · cases more with
    | nil => exact ⟨[], by simpa using longer.symm⟩
    | cons c others =>
      have unbroken : ¬ IsBreak c := solid c (by simp [longer])
      have last := linked.ending_eq_none_iff
      cases kind : line.ending with
      | none =>
        obtain rfl := last.mp kind
        simp [kind, Ending.chars] at ending
      | lf =>
        obtain rfl : '\n' = c := by simpa [kind, Ending.chars] using congrArg List.head? ending
        exact absurd (.inr rfl) unbroken
      | cr | crlf =>
        obtain rfl : '\r' = c := by simpa [kind, Ending.chars] using congrArg List.head? ending
        exact absurd (.inl rfl) unbroken

/-- Looking a position up finds the offset that it denotes. -/
theorem offset?_eq_some_iff_denotes {text : Text} {position : Position} {offset : Nat} :
    text.offset? position = some offset ↔ Denotes text.chars position offset := by
  rw [offset?_eq_some_iff]
  constructor
  · rintro ⟨cut, rfl⟩
    refine ⟨(cut.front.flatMap Line.chars).length, cut.before, ?_, ?_,
      (unbroken_append.mp cut.unbroken).1, cut.width_before, rfl⟩
    · exact getElem?_lineStarts.mpr ⟨cut.front, _, cut.back, cut.split_eq, cut.length_front, rfl⟩
    · rw [cut.chars_eq, List.append_assoc, List.drop_left' rfl]
      exact List.prefix_append _ _
  · rintro ⟨start, word, found, first, solid, wide, rfl⟩
    obtain ⟨front, line, back, split_eq, number, rfl⟩ := getElem?_lineStarts.mp found
    have linked : Line.Linked (line :: back) := by
      have whole := Line.linked_split text.chars
      rw [split_eq] at whole
      exact whole.of_append (List.cons_ne_nil _ _)
    have behind : text.chars.drop (front.flatMap Line.chars).length =
        line.chars ++ back.flatMap Line.chars := by
      rw [← Line.flatMap_chars_split text.chars, split_eq, List.flatMap_append,
        List.drop_left' rfl, List.flatMap_cons]
    rw [behind] at first
    obtain ⟨after, body⟩ := eq_append_of_prefix linked solid first
    have line_eq : line = ⟨word ++ after, line.ending⟩ := by rw [← body]
    exact ⟨⟨front, word, after, line.ending, back, line_eq ▸ split_eq, number, wide⟩, rfl⟩

/-- What precedes a position on its line stands between the start of the line and the offset. -/
theorem before?_of_offset? {text : Text} {position : Position} {offset : Nat}
    (found : text.offset? position = some offset) :
    ∃ start, (lineStarts text.chars)[position.line.toNat]? = some start ∧
      text.before? position = some ((text.chars.take offset).drop start) := by
  obtain ⟨cut, rfl⟩ := offset?_eq_some_iff.mp found
  refine ⟨(cut.front.flatMap Line.chars).length, ?_, before?_eq_some_iff.mpr ⟨cut, ?_⟩⟩
  · exact getElem?_lineStarts.mpr ⟨cut.front, _, cut.back, cut.split_eq, cut.length_front, rfl⟩
  · rw [cut.take_offset, List.drop_left' rfl]

end Text

end LanguageServer
