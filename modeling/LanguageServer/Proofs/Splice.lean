import LanguageServer.Proofs.Position
/-!
# Edits of the text as edits of its lines

The lines of two texts put together are those of the first and those of the second, with the last
line of the first and the first line of the second as one, unless a line break is made across the
seam (`lines_append`). So a change of a range leaves all lines before and behind the range as they
are, and replaces the others by the lines of what it puts between them (`lines_of_apply`).
-/

namespace LanguageServer.Text

theorem lines_ne_nil (text : Text) : text.lines ≠ [] := by
  have := (Line.linked_split text.chars).ne_nil
  simpa [lines] using this

theorem lines_flatMap {lines : List Line} (h : Line.Linked lines) :
    Text.lines ⟨lines.flatMap Line.chars⟩ = lines.map Line.body := by
  rw [Text.lines, Line.split_flatMap h]

theorem lines_append_of_ends {line : Line} {rest : List Char} (h : line.Ends rest) :
    lines ⟨line.chars ++ rest⟩ = line.body :: lines ⟨rest⟩ := by
  simp [lines, Line.split_append_of_ends h]

/-- Characters that hold no line break are put before the first line. -/
theorem lines_append_of_unbroken {body back first : List Char} {below : List (List Char)}
    (h : Unbroken body) (behind : lines ⟨back⟩ = first :: below) :
    lines ⟨body ++ back⟩ = (body ++ first) :: below := by
  have linked := Line.linked_split back
  have whole := Line.flatMap_chars_split back
  obtain ⟨line, rest, parts, rfl, rfl⟩ := List.map_eq_cons_iff.mp behind
  rw [parts] at linked whole
  have longer : Line.Linked (⟨body ++ line.body, line.ending⟩ :: rest) := by
    have unbroken := unbroken_append.mpr ⟨h, linked.unbroken⟩
    cases linked with
    | last => exact .last unbroken
    | next ends linked => exact .next ⟨unbroken, ends.ended, ends.whole⟩ linked
  have flat : body ++ back =
      (⟨body ++ line.body, line.ending⟩ :: rest : List Line).flatMap Line.chars := by
    rw [← whole]
    simp [Line.chars]
  rw [flat, lines_flatMap longer, List.map_cons]

/-- A line feed at the start ends an empty first line. -/
theorem lines_line_feed (rest : List Char) : lines ⟨'\n' :: rest⟩ = [] :: lines ⟨rest⟩ := by
  have feed : Line.Ends ⟨[], .lf⟩ rest := ⟨unbroken_nil, by simp, by simp⟩
  exact lines_append_of_ends feed

/-- Behind one line that ends, the lines start anew, unless its carriage return takes a line feed
away from them. -/
theorem lines_line_append {line : Line} (h : line.Ends []) (back : List Char) :
    lines ⟨line.chars ++ back⟩ = line.body ::
      if Joins line.chars back then (lines ⟨back⟩).tail else lines ⟨back⟩ := by
  by_cases joins : Joins line.chars back
  · have carriage : line.ending = .cr := h.getLast?_chars.mp joins.1
    rw [if_pos joins]
    cases back with
    | nil => cases joins.2
    | cons c more =>
      obtain rfl : c = '\n' := by simpa using joins.2
      have both : Line.Ends ⟨line.body, .crlf⟩ more := ⟨h.unbroken, by simp, by simp⟩
      have first := lines_append_of_ends both
      simp only [Line.chars, Ending.chars, List.cons_append, List.nil_append,
        List.append_assoc] at first
      rw [Line.chars, carriage, Ending.chars, lines_line_feed, List.append_assoc]
      exact first
  · have apart : line.Ends back := by
      refine ⟨h.unbroken, h.ended, fun carriage feed => ?_⟩
      exact joins ⟨h.getLast?_chars.mpr carriage, feed⟩
    rw [if_neg joins, lines_append_of_ends apart]

/-- The lines of two texts put together: a line break across the seam ends the last line of the
first, and takes the place of the one that the other starts with. -/
theorem lines_append {front back first last : List Char} {above below : List (List Char)}
    (ahead : lines ⟨front⟩ = above ++ [last]) (behind : lines ⟨back⟩ = first :: below) :
    lines ⟨front ++ back⟩ =
      if Joins front back then above ++ below else above ++ (last ++ first) :: below := by
  have linked := Line.linked_split front
  rw [← Line.flatMap_chars_split front] at ahead ⊢
  generalize Line.split front = parts at linked ahead ⊢
  rw [lines_flatMap linked] at ahead
  induction linked generalizing above with
  | @last body unbroken =>
    have alone : [] ++ [body] = above ++ [last] := ahead
    obtain ⟨rfl, ⟨⟩⟩ := List.append_inj' alone rfl
    have apart : ¬ Joins last back := by
      rintro ⟨carriage, -⟩
      exact unbroken.getLast?_ne (.inl rfl) carriage
    simpa [Line.chars, Ending.chars, apart] using lines_append_of_unbroken unbroken behind
  | @next line rest ends linked ih =>
    cases above with
    | nil => simp [linked.ne_nil] at ahead
    | cons head above =>
      obtain ⟨rfl, others⟩ := List.cons.inj ahead
      -- Only the last line of `front` that ends can meet `back`.
      by_cases empty : rest.flatMap Line.chars = []
      · have single : rest = [⟨[], .none⟩] := by
          rw [← Line.split_flatMap linked, empty]
          rfl
        subst single
        have alone : [] ++ [[]] = above ++ [last] := others
        obtain ⟨rfl, ⟨⟩⟩ := List.append_inj' alone rfl
        rw [empty] at ends
        rw [List.flatMap_cons, empty, List.append_nil, lines_line_append ends, behind]
        split <;> rfl
      · have seam : Joins (line.chars ++ rest.flatMap Line.chars) back ↔
            Joins (rest.flatMap Line.chars) back := by
          simp only [Joins, List.getLast?_append, List.getLast?_eq_some_getLast empty,
            Option.some_or]
        rw [List.flatMap_cons, List.append_assoc, lines_append_of_ends (ends.append empty back),
          ih others]
        simp only [seam]
        split <;> rfl

/-- A text that starts with an empty line leaves the lines before it as they are. -/
theorem lines_append_of_empty {front back : List Char} (apart : ¬ Joins front back)
    {rest : List (List Char)} (empty : lines ⟨back⟩ = [] :: rest) :
    lines ⟨front ++ back⟩ = lines ⟨front⟩ ++ rest := by
  have whole := List.dropLast_concat_getLast (lines_ne_nil ⟨front⟩)
  rw [lines_append whole.symm empty, if_neg apart, List.append_nil, List.append_cons, whole]

/-! ## The lines at a cut -/

namespace Cut

variable {text : Text} {position : Position}

theorem lines_eq (cut : text.Cut position) :
    text.lines = cut.front.map Line.body ++
      (cut.before ++ cut.after) :: cut.back.map Line.body := by
  simp [Text.lines, cut.split_eq]

theorem line?_eq (cut : text.Cut position) :
    text.line? position.line.toNat = some (cut.before ++ cut.after) := by
  rw [line?, cut.lines_eq, ← cut.length_front]
  simp

theorem take_lines (cut : text.Cut position) :
    text.lines.take position.line.toNat = cut.front.map Line.body := by
  rw [cut.lines_eq]
  exact List.take_left' (by simp [cut.length_front])

theorem drop_lines (cut : text.Cut position) :
    text.lines.drop (position.line.toNat + 1) = cut.back.map Line.body := by
  rw [cut.lines_eq, List.append_cons]
  exact List.drop_left' (by simp [cut.length_front])

end Cut

/-- Two cuts of one line have the same lines before them. -/
theorem Cut.front_eq {text : Text} {p q : Position} (a : text.Cut p) (b : text.Cut q)
    (line : p.line = q.line) : a.front = b.front := by
  have lengths : a.front.length = b.front.length := by
    rw [a.length_front, b.length_front, line]
  exact (List.append_inj (a.split_eq.symm.trans b.split_eq) lengths).1

/-- What stands between two cuts of one line. -/
theorem Cut.between {text : Text} {p q : Position} (a : text.Cut p) (b : text.Cut q)
    (line : p.line = q.line) {middle : List Char} (before : b.before = a.before ++ middle) :
    (text.chars.take b.offset).drop a.offset = middle := by
  rw [b.take_offset, before, ← a.front_eq b line, ← List.append_assoc]
  exact List.drop_left' (by simp [offset])

/-- A line can be cut before each of its characters and at its end. -/
theorem exists_cut {text : Text} (position : Position) {front back : List (List Char)}
    {before after : List Char} (lines : text.lines = front ++ (before ++ after) :: back)
    (line : position.line.toNat = front.length)
    (column : position.character.toNat = Utf16.width before) :
    ∃ cut : text.Cut position, cut.before = before ∧ cut.after = after := by
  obtain ⟨ahead, behind, split_eq, rfl, behind_eq⟩ := List.map_eq_append_iff.mp lines
  obtain ⟨⟨body, ending⟩, others, rfl, body_eq, -⟩ := List.map_eq_cons_iff.mp behind_eq
  obtain rfl : body = before ++ after := body_eq
  exact ⟨⟨ahead, before, after, ending, others, split_eq, by simp [line], column.symm⟩, rfl, rfl⟩

/-! ## The two seams of a change -/

theorem lines_front_append {front rest : List Line} (h : Line.Linked (front ++ rest))
    (nonempty : rest ≠ []) (back : List Char) :
    lines ⟨front.flatMap Line.chars ++ back⟩ = front.map Line.body ++
      if Joins (front.flatMap Line.chars) back then (lines ⟨back⟩).tail else lines ⟨back⟩ := by
  have flat : front.flatMap Line.chars = (front ++ [(⟨[], .none⟩ : Line)]).flatMap Line.chars := by
    simp [Line.chars, Ending.chars]
  have alone : lines ⟨front.flatMap Line.chars⟩ = front.map Line.body ++ [[]] := by
    rw [flat, lines_flatMap (h.truncate nonempty)]
    simp
  obtain ⟨first, below, behind⟩ := List.exists_cons_of_ne_nil (lines_ne_nil ⟨back⟩)
  rw [lines_append alone behind, behind]
  split <;> rfl

theorem lines_append_rest {text : Text} {position : Position} (cut : text.Cut position)
    (front : List Char) :
    lines ⟨front ++ cut.rest⟩ =
      (if Joins front cut.rest then (lines ⟨front⟩).dropLast else lines ⟨front⟩) ++
        cut.back.map Line.body := by
  have bare : Line.Linked (⟨[], cut.ending⟩ :: cut.back) := by
    have linked := cut.linked_back
    generalize cut.ending = ending, cut.back = back at linked
    cases linked with
    | last => exact .last unbroken_nil
    | next ends linked => exact .next ⟨unbroken_nil, ends.ended, ends.whole⟩ linked
  have alone : lines ⟨cut.rest⟩ = [] :: cut.back.map Line.body := lines_flatMap bare
  by_cases joins : Joins front cut.rest
  · have whole := List.dropLast_concat_getLast (lines_ne_nil ⟨front⟩)
    rw [lines_append whole.symm alone, if_pos joins, if_pos joins]
  · rw [if_neg joins]
    exact lines_append_of_empty joins alone

/-- A carriage return at the end starts an empty last line. -/
theorem lines_concat_carriage_return (front : List Char) :
    lines ⟨front ++ ['\r']⟩ = lines ⟨front⟩ ++ [[]] := by
  have apart : ¬ Joins front ['\r'] := by
    rintro ⟨-, feed⟩
    simp at feed
  exact lines_append_of_empty apart rfl

/-- What a change puts between two lines takes their place, but for a line break that the first
or the last character of it makes with what is there. -/
theorem lines_between {text : Text} {p q : Position} (first : text.Cut p) (last : text.Cut q)
    (middle : List Char) :
    lines ⟨first.front.flatMap Line.chars ++ (middle ++ last.rest)⟩ =
      first.front.map Line.body ++
        (let lines := lines ⟨middle⟩
        let lines := if Joins (first.front.flatMap Line.chars) (middle ++ last.rest)
          then lines.tail else lines
        if Joins middle last.rest then lines.dropLast else lines) ++
        last.back.map Line.body := by
  rw [lines_front_append first.linked (List.cons_ne_nil _ _), lines_append_rest]
  have nonempty := lines_ne_nil ⟨middle⟩
  by_cases before : Joins (first.front.flatMap Line.chars) (middle ++ last.rest)
  · by_cases after : Joins middle last.rest
    · have longer : (lines ⟨middle⟩).dropLast ≠ [] := by
        obtain ⟨front, rfl⟩ := List.getLast?_eq_some_iff.mp after.1
        rw [lines_concat_carriage_return, List.dropLast_concat]
        exact lines_ne_nil _
      simp [before, after, List.tail_append_of_ne_nil longer, List.tail_dropLast]
    · simp [before, after, List.tail_append_of_ne_nil nonempty]
  · by_cases after : Joins middle last.rest
    · simp [before, after]
    · simp [before, after]

section

variable {text : Text} {p q : Position} (first : text.Cut p) (last : text.Cut q)
  (new : List Char)

/-- The text before the start and what is put there make a line break only if the start is at the
start of a line. -/
theorem joins_start_iff :
    Joins (first.front.flatMap Line.chars)
        (first.before ++ new ++ last.after ++ last.rest) ↔
      Joins (text.chars.take first.offset) (new ++ text.chars.drop last.offset) := by
  rw [first.take_offset, last.drop_offset]
  by_cases start : first.before = []
  · simp [start]
  · have unbroken := (unbroken_append.mp first.unbroken).1
    constructor
    · rintro ⟨-, feed⟩
      rw [List.append_assoc, List.append_assoc] at feed
      exact absurd feed (unbroken.ne_of_head start (.inr rfl))
    · rintro ⟨carriage, -⟩
      exact absurd carriage (unbroken.ne_of_getLast start (.inl rfl))

/-- What is put before the end and the text behind it make a line break only if the end is at the
end of a line. -/
theorem joins_stop_iff :
    Joins (first.before ++ new ++ last.after) last.rest ↔
      Joins new (text.chars.drop last.offset) := by
  rw [last.drop_offset]
  by_cases stop : last.after = []
  · have unbroken := (unbroken_append.mp first.unbroken).1
    simp only [stop, List.append_nil, List.nil_append, Joins]
    cases ending : new.getLast? with
    | some c => simp [List.getLast?_append, ending]
    | none =>
      rw [List.getLast?_eq_none_iff.mp ending, List.append_nil]
      simp [unbroken.getLast?_ne (.inl rfl)]
  · have unbroken := (unbroken_append.mp last.unbroken).2
    constructor
    · rintro ⟨carriage, -⟩
      exact absurd carriage (unbroken.ne_of_getLast stop (.inl rfl))
    · rintro ⟨-, feed⟩
      exact absurd feed (unbroken.ne_of_head stop (.inr rfl))

theorem lines_replace (ordered : first.offset ≤ last.offset) :
    (text.replace first.offset last.offset new).lines =
      text.lines.take p.line.toNat ++
        (let lines := lines ⟨first.before ++ new ++ last.after⟩
        let lines := if Joins (text.chars.take first.offset)
          (new ++ text.chars.drop last.offset) then lines.tail else lines
        if Joins new (text.chars.drop last.offset) then lines.dropLast else lines) ++
        text.lines.drop (q.line.toNat + 1) := by
  have whole := text.chars_replace ordered new
  have parts : (text.replace first.offset last.offset new).chars =
      first.front.flatMap Line.chars ++
        (first.before ++ new ++ last.after ++ last.rest) := by
    rw [whole, first.take_offset, last.drop_offset]
    simp
  rw [Text.lines, parts]
  refine (lines_between first last _).trans ?_
  rw [first.take_lines, last.drop_lines]
  simp only [joins_start_iff, joins_stop_iff]

/-- Where a line break goes across the start of a change, the line it ends is not in the change. -/
theorem head?_lines_of_joins
    (joins : Joins (text.chars.take first.offset) (new ++ text.chars.drop last.offset)) :
    (lines ⟨first.before ++ new ++ last.after⟩).head? = some [] := by
  have whole := (joins_start_iff first last new).mpr joins
  cases middle : first.before ++ new ++ last.after with
  | nil => rfl
  | cons c rest =>
    rw [middle] at whole
    obtain rfl : c = '\n' := by simpa using whole.2
    rw [lines_line_feed]
    rfl

theorem getLast?_lines_of_joins (joins : Joins new (text.chars.drop last.offset)) :
    (lines ⟨first.before ++ new ++ last.after⟩).getLast? = some [] := by
  have whole := (joins_stop_iff first last new).mpr joins
  obtain ⟨front, ending⟩ := List.getLast?_eq_some_iff.mp whole.1
  rw [ending, lines_concat_carriage_return]
  simp

end

/-- What is put into a line at one place, and breaks no line, changes this line only. -/
theorem apply_insert {text : Text} (position : Position) {front back : List (List Char)}
    {before after : List Char} (lines_eq : text.lines = front ++ (before ++ after) :: back)
    (line : position.line.toNat = front.length)
    (column : position.character.toNat = Utf16.width before) {new : String}
    (unbroken : Unbroken new.toList) :
    ∃ next, text.apply ⟨some ⟨position, position⟩, new⟩ = .ok next ∧
      next.lines = front ++ (before ++ new.toList ++ after) :: back := by
  obtain ⟨cut, rfl, rfl⟩ := exists_cut position lines_eq line column
  have start : ¬ Joins (text.chars.take cut.offset) (new.toList ++ text.chars.drop cut.offset) := by
    by_cases empty : new.toList = []
    · rw [empty]
      exact cut.not_splits
    · exact fun joins => unbroken.ne_of_head empty (.inr rfl) joins.2
  have stop : ¬ Joins new.toList (text.chars.drop cut.offset) :=
    fun joins => unbroken.getLast?_ne (.inl rfl) joins.1
  have whole : Unbroken (cut.before ++ new.toList ++ cut.after) := by
    obtain ⟨before, after⟩ := unbroken_append.mp cut.unbroken
    exact unbroken_append.mpr ⟨unbroken_append.mpr ⟨before, unbroken⟩, after⟩
  have single : lines ⟨cut.before ++ new.toList ++ cut.after⟩ =
      [cut.before ++ new.toList ++ cut.after] := by
    rw [lines, Line.split_of_unbroken whole]
    rfl
  have ahead : text.lines.take front.length = front := by
    rw [lines_eq]
    exact List.take_left' rfl
  have behind : text.lines.drop (front.length + 1) = back := by
    rw [lines_eq, List.append_cons]
    exact List.drop_left' (by simp)
  have found := offset?_eq_some_iff.mpr ⟨cut, rfl⟩
  refine ⟨_, apply_range_eq_ok.mpr ⟨cut.offset, cut.offset, found, found, rfl⟩, ?_⟩
  rw [Nat.min_self, Nat.max_self, lines_replace cut cut new.toList (Nat.le_refl _)]
  simp only [start, stop, if_false, single, line, ahead, behind]
  rw [List.append_assoc, List.singleton_append]

/-- A change of a range leaves the lines before the range and those behind it as they are. Between
them stand the lines of what is left of the first line, the new text, and what is left of the last
line: without the first of these, an empty one, if a line break goes across the start, and without
the last, an empty one too, if a line break goes across the end. -/
theorem lines_of_apply {text next : Text} {range : Range} {new : String} {first last : Position}
    {a b : Nat} (accepted : text.apply ⟨some range, new⟩ = .ok next)
    (ends : range = ⟨first, last⟩ ∨ range = ⟨last, first⟩)
    (start : text.offset? first = some a) (stop : text.offset? last = some b) (ordered : a ≤ b) :
    ∃ before replaced passed after,
      text.line? first.line.toNat = some (before ++ replaced) ∧
      Utf16.width before = first.character.toNat ∧
      text.line? last.line.toNat = some (passed ++ after) ∧
      Utf16.width passed = last.character.toNat ∧
      let middle := lines ⟨before ++ new.toList ++ after⟩
      let inner := if Joins (text.chars.take a) (new.toList ++ text.chars.drop b)
        then middle.tail else middle
      let inner := if Joins new.toList (text.chars.drop b) then inner.dropLast else inner
      (Joins (text.chars.take a) (new.toList ++ text.chars.drop b) →
        middle.head? = some []) ∧
      (Joins new.toList (text.chars.drop b) → middle.getLast? = some []) ∧
      next.lines = text.lines.take first.line.toNat ++ inner ++
        text.lines.drop (last.line.toNat + 1) ∧
      text.lines.take first.line.toNat <+: next.lines ∧
      text.lines.drop (last.line.toNat + 1) <:+ next.lines := by
  obtain ⟨x, y, hx, hy, rfl⟩ := apply_range_eq_ok.mp accepted
  have bounds : min x y = a ∧ max x y = b := by
    rcases ends with rfl | rfl
    · obtain rfl : x = a := Option.some.inj (hx.symm.trans start)
      obtain rfl : y = b := Option.some.inj (hy.symm.trans stop)
      omega
    · obtain rfl : x = b := Option.some.inj (hx.symm.trans stop)
      obtain rfl : y = a := Option.some.inj (hy.symm.trans start)
      omega
  rw [bounds.1, bounds.2]
  obtain ⟨head, rfl⟩ := offset?_eq_some_iff.mp start
  obtain ⟨foot, rfl⟩ := offset?_eq_some_iff.mp stop
  have lines_eq := lines_replace head foot new.toList ordered
  refine ⟨head.before, head.after, foot.before, foot.after, head.line?_eq, head.width_before,
    foot.line?_eq, foot.width_before, head?_lines_of_joins head foot new.toList,
    getLast?_lines_of_joins head foot new.toList, lines_eq, ?_, ?_⟩
  · rw [lines_eq, List.append_assoc]
    exact List.prefix_append _ _
  · rw [lines_eq]
    exact List.suffix_append _ _

theorem lines_of_apply_joined :
    let text : Text := ⟨['a', '\r', 'b', '\n', 'c']⟩
    let next : Text := ⟨['a', '\r', '\n', 'c']⟩
    let range : Range := ⟨⟨1, 1⟩, ⟨1, 0⟩⟩
    text.apply ⟨some range, ""⟩ = .ok next ∧ range = ⟨⟨1, 1⟩, ⟨1, 0⟩⟩ ∧
      text.offset? ⟨1, 0⟩ = some 2 ∧ text.offset? ⟨1, 1⟩ = some 3 ∧ 2 ≤ 3 ∧
      text.lines.take 1 <+: next.lines ∧ text.lines.drop 2 <:+ next.lines := by
  intro text next range
  have accepted : text.apply ⟨some range, ""⟩ = .ok next := rfl
  have start : text.offset? ⟨1, 0⟩ = some 2 := by decide
  have stop : text.offset? ⟨1, 1⟩ = some 3 := by decide
  obtain ⟨_, _, _, _, _, _, _, _, _, _, _, ahead, behind⟩ :=
    lines_of_apply accepted (.inr rfl) start stop (by decide)
  exact ⟨accepted, rfl, start, stop, by decide, ahead, behind⟩

end LanguageServer.Text
