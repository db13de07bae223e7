import Mathlib.Data.List.TakeWhile
import LanguageServer.Unicode.WhiteSpace
/-!
# White space and its trimming

Where a run of characters of one kind stops, and what trimming leaves: white space at the end is
dropped (`trimEnd_append_blanks`), and nothing before the last character that is no white space
(`trimEnd_append_of_not_blank`).
-/

namespace LanguageServer

/-! ## Runs -/

section

variable {α : Type} {p : α → Bool} {run rest : List α}

/-- A run is taken if what follows it cannot go on with it. -/
theorem takeWhile_append_of_stops (all : ∀ x ∈ run, p x = true)
    (stops : ∀ x, rest.head? = some x → p x = false) : (run ++ rest).takeWhile p = run := by
  rw [List.takeWhile_append_of_pos all]
  cases rest with
  | nil => simp
  | cons x more => simp [stops x rfl]

theorem dropWhile_append_of_stops (all : ∀ x ∈ run, p x = true)
    (stops : ∀ x, rest.head? = some x → p x = false) : (run ++ rest).dropWhile p = rest := by
  rw [List.dropWhile_append_of_pos all]
  cases rest with
  | nil => simp
  | cons x more => simp [stops x rfl]

theorem of_head?_append {x : α} {b : Bool} (nonempty : run ≠ []) (all : ∀ y ∈ run, p y = b)
    (first : (run ++ rest).head? = some x) : p x = b := by
  rw [List.head?_append, List.head?_eq_some_head nonempty, Option.some_or] at first
  cases first
  exact all _ (List.head_mem nonempty)

end

namespace Unicode

/-- All characters are white space. -/
def Blank (chars : List Char) : Prop := ∀ c ∈ chars, isWhiteSpace c = true

instance (chars : List Char) : Decidable (Blank chars) :=
  List.decidableBAll _ chars

theorem blank_reverse {chars : List Char} : Blank chars.reverse ↔ Blank chars := by
  simp [Blank]

theorem blank_append {front back : List Char} :
    Blank (front ++ back) ↔ Blank front ∧ Blank back := by
  simp only [Blank, List.mem_append, or_imp, forall_and]

theorem blank_takeWhile (chars : List Char) : Blank (chars.takeWhile isWhiteSpace) :=
  fun _ member => List.mem_takeWhile_imp member

/-! ## Trimming -/

theorem trimEnd_append_blanks (chars : List Char) {blanks : List Char}
    (h : ∀ c ∈ blanks, isWhiteSpace c = true) : trimEnd (chars ++ blanks) = trimEnd chars := by
  have reversed : ∀ c ∈ blanks.reverse, isWhiteSpace c = true :=
    fun c member => h c (List.mem_reverse.mp member)
  rw [trimEnd, List.reverse_append, List.dropWhile_append_of_pos reversed, trimEnd]

theorem trim_append_blanks (chars : List Char) {blanks : List Char}
    (h : ∀ c ∈ blanks, isWhiteSpace c = true) : trim (chars ++ blanks) = trim chars := by
  have dropped : blanks.dropWhile isWhiteSpace = [] :=
    List.dropWhile_eq_nil_iff.mpr h
  rw [trim, trim, List.dropWhile_append]
  split
  · rename_i empty
    rw [dropped, List.isEmpty_iff.mp empty]
  · exact trimEnd_append_blanks _ h

theorem trimEnd_of_blank {chars : List Char} (h : Blank chars) : trimEnd chars = [] :=
  trimEnd_append_blanks [] h

theorem trimEnd_append_of_not_blank (front : List Char) {back : List Char} (h : ¬ Blank back) :
    trimEnd (front ++ back) = front ++ trimEnd back := by
  have kept : back.reverse.dropWhile isWhiteSpace ≠ [] := by
    intro dropped
    exact h (blank_reverse.mp (List.dropWhile_eq_nil_iff.mp dropped))
  have filled : (back.reverse.dropWhile isWhiteSpace).isEmpty = false := by
    simpa using kept
  simp [trimEnd, List.dropWhile_append, filled]

/-- Trimming drops white space only. -/
theorem exists_blanks (chars : List Char) :
    ∃ blanks, chars = trimEnd chars ++ blanks ∧ Blank blanks := by
  refine ⟨(chars.reverse.takeWhile isWhiteSpace).reverse, ?_, ?_⟩
  · rw [trimEnd, ← List.reverse_append, List.takeWhile_append_dropWhile, List.reverse_reverse]
  · exact blank_reverse.mpr (blank_takeWhile _)

/-- What trimming drops stands at the two ends. -/
theorem exists_trim (chars : List Char) :
    ∃ left right, chars = left ++ trim chars ++ right ∧ Blank left ∧ Blank right := by
  obtain ⟨right, parts, blank⟩ := exists_blanks (chars.dropWhile isWhiteSpace)
  refine ⟨chars.takeWhile isWhiteSpace, right, ?_, blank_takeWhile chars, blank⟩
  rw [trim, List.append_assoc, ← parts, List.takeWhile_append_dropWhile]

/-- Trimming drops white space on both sides of what has none. -/
theorem trim_of_solid {left core right : List Char} (before : Blank left)
    (solid : ∀ c ∈ core, isWhiteSpace c = false) (behind : Blank right) :
    trim (left ++ core ++ right) = core := by
  have first : ∀ c, core.head? = some c → isWhiteSpace c = false :=
    fun c head => solid c (List.mem_of_mem_head? head)
  have last : ∀ c, core.reverse.head? = some c → isWhiteSpace c = false :=
    fun c head => solid c (List.mem_reverse.mp (List.mem_of_mem_head? head))
  have kept : ([] ++ core.reverse).dropWhile isWhiteSpace = core.reverse :=
    dropWhile_append_of_stops (by simp) last
  rw [List.nil_append] at kept
  rw [trim_append_blanks _ behind, trim, dropWhile_append_of_stops before first, trimEnd, kept,
    List.reverse_reverse]

/-- A space is in what trimming leaves if something other than white space stands behind it. -/
theorem space_mem_trimEnd_iff {chars : List Char} :
    ' ' ∈ trimEnd chars ↔ ∃ front back, chars = front ++ ' ' :: back ∧ ¬ Blank back := by
  constructor
  · intro member
    obtain ⟨front, back, kept⟩ := List.append_of_mem member
    obtain ⟨blanks, parts, -⟩ := exists_blanks chars
    refine ⟨front, back ++ blanks, ?_, ?_⟩
    · rw [parts, kept]
      simp
    · intro blank
      -- Otherwise the space is part of the white space at the end, which is dropped.
      have tail : Blank (' ' :: (back ++ blanks)) :=
        List.forall_mem_cons.mpr ⟨by decide, blank⟩
      have whole : chars = front ++ ' ' :: (back ++ blanks) := by
        rw [parts, kept]
        simp
      rw [whole, trimEnd_append_blanks front tail] at kept
      obtain ⟨dropped, front_eq, -⟩ := exists_blanks front
      have lengths := congrArg List.length kept
      have shorter := congrArg List.length front_eq
      simp only [List.length_append, List.length_cons] at lengths shorter
      omega
  · rintro ⟨front, back, rfl, inside⟩
    rw [List.append_cons, trimEnd_append_of_not_blank _ inside]
    simp

end Unicode

end LanguageServer
