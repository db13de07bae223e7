import LanguageServer.Text.Line
/-!
# The lines of a text

`Linked` says how the lines of a text follow one another: no line break inside a line, an ending on
all but the last one, and no carriage return that ends a line before a line feed. Splitting gives
such lines (`linked_split`), and of some characters no others (`split_flatMap`).
-/

namespace LanguageServer

def IsBreak (c : Char) : Prop := c = '\r' ∨ c = '\n'

/-- No character is part of a line break. -/
def Unbroken (chars : List Char) : Prop := ∀ c ∈ chars, ¬ IsBreak c

theorem unbroken_nil : Unbroken [] := fun _ member => absurd member List.not_mem_nil

theorem unbroken_singleton {c : Char} : Unbroken [c] ↔ ¬ IsBreak c := List.forall_mem_singleton

theorem unbroken_iff {chars : List Char} : Unbroken chars ↔ '\r' ∉ chars ∧ '\n' ∉ chars := by
  constructor
  · intro h
    exact ⟨fun member => h '\r' member (.inl rfl), fun member => h '\n' member (.inr rfl)⟩
  · rintro ⟨carriage, feed⟩ c member (rfl | rfl)
    · exact carriage member
    · exact feed member

theorem unbroken_append {front back : List Char} :
    Unbroken (front ++ back) ↔ Unbroken front ∧ Unbroken back := by
  simp only [Unbroken, List.mem_append]
  constructor
  · intro h
    exact ⟨fun c member => h c (.inl member), fun c member => h c (.inr member)⟩
  · rintro ⟨ahead, behind⟩ c (member | member)
    · exact ahead c member
    · exact behind c member

theorem Unbroken.ne_of_head {chars rest : List Char} (h : Unbroken chars) (nonempty : chars ≠ [])
    {c : Char} (broken : IsBreak c) : (chars ++ rest).head? ≠ some c := by
  cases chars with
  | nil => contradiction
  | cons d more =>
    intro same
    obtain rfl : d = c := by simpa using same
    exact h d (by simp) broken

theorem Unbroken.getLast?_ne {chars : List Char} (h : Unbroken chars) {c : Char}
    (broken : IsBreak c) : chars.getLast? ≠ some c :=
  fun same => h c (List.mem_of_getLast? same) broken

theorem Unbroken.ne_of_getLast {chars front : List Char} (h : Unbroken chars)
    (nonempty : chars ≠ []) {c : Char} (broken : IsBreak c) :
    (front ++ chars).getLast? ≠ some c := by
  intro same
  apply h.getLast?_ne broken
  rwa [List.getLast?_append, List.getLast?_eq_some_getLast nonempty, Option.some_or,
    ← List.getLast?_eq_some_getLast nonempty] at same

/-- The last character of `front` and the first one of `back` are one line break. -/
def Joins (front back : List Char) : Prop :=
  front.getLast? = some '\r' ∧ back.head? = some '\n'

instance (front back : List Char) : Decidable (Joins front back) :=
  inferInstanceAs (Decidable (_ ∧ _))

namespace Line

/-- A line ends before some characters: it has an ending, of which the characters are no part. -/
structure Ends (line : Line) (rest : List Char) : Prop where
  unbroken : Unbroken line.body
  ended : line.ending ≠ .none
  whole : line.ending = .cr → rest.head? ≠ some '\n'

inductive Linked : List Line → Prop
  | last {body : List Char} : Unbroken body → Linked [⟨body, .none⟩]
  | next {line : Line} {rest : List Line} :
      line.Ends (rest.flatMap Line.chars) → Linked rest → Linked (line :: rest)

/-! ## Splitting -/

theorem splitAfter_append {body : List Char} (h : Unbroken body) (read rest : List Char) :
    splitAfter read (body ++ rest) = splitAfter (body.reverse ++ read) rest := by
  induction body generalizing read with
  | nil => rfl
  | cons c more ih =>
    have solid : ¬ IsBreak c := h c (by simp)
    have more_unbroken : Unbroken more := fun d member => h d (by simp [member])
    rw [List.cons_append, splitAfter, ih more_unbroken]
    · simp
    · rintro rest rfl -
      exact solid (.inl rfl)
    · rintro rfl
      exact solid (.inl rfl)
    · rintro rfl
      exact solid (.inr rfl)

theorem split_of_unbroken {body : List Char} (h : Unbroken body) :
    split body = [⟨body, .none⟩] := by
  have whole := splitAfter_append h [] []
  simpa [split, splitAfter] using whole

/-- The first line is split off at its ending. -/
theorem split_append_of_ends {line : Line} {rest : List Char} (h : line.Ends rest) :
    split (line.chars ++ rest) = line :: split rest := by
  obtain ⟨body, ending⟩ := line
  have start := splitAfter_append h.unbroken [] (ending.chars ++ rest)
  simp only [List.append_nil] at start
  rw [split, Line.chars, List.append_assoc, start]
  cases ending with
  | none => exact absurd rfl h.ended
  | lf => simp [Ending.chars, splitAfter, split]
  | crlf => simp [Ending.chars, splitAfter, split]
  | cr =>
    have alone := h.whole rfl
    simp only [Ending.chars, List.cons_append, List.nil_append]
    rw [splitAfter]
    · simp [split]
    · rintro more rfl
      exact alone rfl

theorem linked_splitAfter {read : List Char} (h : Unbroken read) (chars : List Char) :
    Linked (splitAfter read chars) := by
  have flat (chars : List Char) : (splitAfter [] chars).flatMap Line.chars = chars :=
    flatMap_chars_split chars
  have solid : Unbroken read.reverse := fun c member => h c (List.mem_reverse.mp member)
  fun_induction splitAfter read chars with
  | case1 read => exact .last solid
  | case2 read rest ih =>
    exact .next ⟨solid, by simp, by simp⟩ (ih unbroken_nil unbroken_nil)
  | case3 read rest alone ih =>
    refine .next ⟨solid, by simp, ?_⟩ (ih unbroken_nil unbroken_nil)
    intro _ feed
    rw [flat] at feed
    cases rest with
    | nil => cases feed
    | cons c more =>
      obtain rfl : c = '\n' := by simpa using feed
      exact alone more rfl
  | case4 read rest ih =>
    exact .next ⟨solid, by simp, by simp⟩ (ih unbroken_nil unbroken_nil)
  | case5 read c rest notCrlf notCr notLf ih =>
    have longer : Unbroken (c :: read) := by
      intro d member
      rcases List.mem_cons.mp member with rfl | old
      · exact fun broken => broken.elim notCr notLf
      · exact h d old
    exact ih longer fun d member => longer d (List.mem_reverse.mp member)

/-- Splitting gives lines that follow one another as in a text. -/
theorem linked_split (chars : List Char) : Linked (split chars) :=
  linked_splitAfter unbroken_nil chars

/-- Lines that follow one another as in a text are what their characters split into. -/
theorem split_flatMap {lines : List Line} (h : Linked lines) :
    split (lines.flatMap Line.chars) = lines := by
  induction h with
  | last unbroken =>
    simpa [Line.chars, Ending.chars] using split_of_unbroken unbroken
  | next ends _ ih =>
    rw [List.flatMap_cons, split_append_of_ends ends, ih]

/-! ## Parts of linked lines -/

/-- Only the first character behind a line matters to its ending. -/
theorem Ends.of_head? {line : Line} {rest other : List Char} (h : line.Ends rest)
    (same : other.head? = rest.head?) : line.Ends other :=
  ⟨h.unbroken, h.ended, fun carriage => same ▸ h.whole carriage⟩

theorem Ends.append {line : Line} {rest : List Char} (h : line.Ends rest) (nonempty : rest ≠ [])
    (back : List Char) : line.Ends (rest ++ back) := by
  apply h.of_head?
  rw [List.head?_append, List.head?_eq_some_head nonempty, Option.some_or]

theorem Ends.chars_ne_nil {line : Line} {rest : List Char} (h : line.Ends rest) :
    line.chars ≠ [] := by
  intro empty
  obtain ⟨-, none⟩ := List.append_eq_nil_iff.mp empty
  cases ending : line.ending with
  | none => exact h.ended ending
  | lf | cr | crlf => simp [ending, Ending.chars] at none

theorem Ends.getLast?_chars {line : Line} {rest : List Char} (h : line.Ends rest) :
    line.chars.getLast? = some '\r' ↔ line.ending = .cr := by
  unfold Line.chars
  cases ending : line.ending with
  | none => exact absurd ending h.ended
  | lf | cr | crlf => simp [Ending.chars]

theorem Linked.ne_nil {lines : List Line} (h : Linked lines) : lines ≠ [] := by
  cases h <;> simp

/-- Every line but the last one ends before the lines behind it. -/
theorem Linked.ends {line : Line} {rest : List Line} (h : Linked (line :: rest))
    (nonempty : rest ≠ []) : line.Ends (rest.flatMap Line.chars) := by
  cases h with
  | last => contradiction
  | next ends _ => exact ends

theorem Linked.tail {line : Line} {rest : List Line} (h : Linked (line :: rest))
    (nonempty : rest ≠ []) : Linked rest := by
  cases h with
  | last => contradiction
  | next _ linked => exact linked

theorem Linked.of_append {front rest : List Line} (h : Linked (front ++ rest))
    (nonempty : rest ≠ []) : Linked rest := by
  induction front with
  | nil => exact h
  | cons line more ih =>
    rw [List.cons_append] at h
    exact ih (h.tail (by simp [nonempty]))

theorem Linked.unbroken {line : Line} {rest : List Line} (h : Linked (line :: rest)) :
    Unbroken line.body := by
  cases h with
  | last unbroken => exact unbroken
  | next ends _ => exact ends.unbroken

theorem Linked.unbroken_of_mem {parts : List Line} (h : Linked parts) {line : Line}
    (member : line ∈ parts) : Unbroken line.body := by
  obtain ⟨front, back, rfl⟩ := List.append_of_mem member
  exact (h.of_append (List.cons_ne_nil _ _)).unbroken

theorem Linked.ending_eq_none_iff {line : Line} {rest : List Line}
    (h : Linked (line :: rest)) : line.ending = .none ↔ rest = [] := by
  cases h with
  | last => simp
  | next ends linked => simp [ends.ended, linked.ne_nil]

/-- The lines in front of other ones are the lines of a text that ends where these begin. -/
theorem Linked.truncate {front rest : List Line} (h : Linked (front ++ rest))
    (nonempty : rest ≠ []) : Linked (front ++ [⟨[], .none⟩]) := by
  induction front with
  | nil => exact .last unbroken_nil
  | cons line more ih =>
    rw [List.cons_append] at h
    have linked := h.tail (by simp [nonempty])
    have ends := h.ends (by simp [nonempty])
    rw [List.cons_append]
    refine .next ?_ (ih linked)
    cases more with
    | nil => exact ⟨ends.unbroken, ends.ended, by simp [Line.chars, Ending.chars]⟩
    | cons second others =>
      have filled := (linked.ends (by simp [nonempty])).chars_ne_nil
      apply ends.of_head?
      simp only [List.cons_append, List.flatMap_cons, List.head?_append]
      rw [List.head?_eq_some_head filled, Option.some_or, Option.some_or]

/-- No line break is cut in two between lines. -/
theorem Linked.not_joins {front rest : List Line} (h : Linked (front ++ rest))
    (nonempty : rest ≠ []) : ¬ Joins (front.flatMap Line.chars) (rest.flatMap Line.chars) := by
  induction front with
  | nil => simp [Joins]
  | cons line more ih =>
    rw [List.cons_append] at h
    have linked := h.tail (by simp [nonempty])
    have ends := h.ends (by simp [nonempty])
    rintro ⟨carriage, feed⟩
    rw [List.flatMap_cons, List.getLast?_append] at carriage
    cases last : (more.flatMap Line.chars).getLast? with
    | some c =>
      rw [last, Option.some_or] at carriage
      exact ih linked ⟨last.trans carriage, feed⟩
    | none =>
      rw [last, Option.none_or] at carriage
      apply ends.whole (ends.getLast?_chars.mp carriage)
      rw [List.flatMap_append, List.getLast?_eq_none_iff.mp last, List.nil_append]
      exact feed

end Line

end LanguageServer
