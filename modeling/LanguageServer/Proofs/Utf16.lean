import LanguageServer.Unicode.Utf16
/-!
# Columns

A column parts characters in at most one way: every character takes at least one code unit, so the
column and the number of characters before it grow together (`width_lt_iff`).
-/

namespace LanguageServer.Utf16

theorem units_eq (c : Char) : units c = 1 ∨ units c = 2 := by
  unfold units
  split
  · exact .inl rfl
  · exact .inr rfl

theorem units_pos (c : Char) : 0 < units c := by
  rcases units_eq c with single | double <;> omega

@[simp] theorem width_nil : width [] = 0 := rfl

@[simp] theorem width_cons (c : Char) (rest : List Char) :
    width (c :: rest) = units c + width rest := rfl

@[simp] theorem width_append (front back : List Char) :
    width (front ++ back) = width front + width back := by
  induction front with
  | nil => simp
  | cons c rest ih =>
    simp only [List.cons_append, width_cons, ih]
    omega

theorem width_pos {chars : List Char} (h : chars ≠ []) : 0 < width chars := by
  cases chars with
  | nil => contradiction
  | cons c rest =>
    have := units_pos c
    simp only [width_cons]
    omega

theorem width_eq_zero {chars : List Char} : width chars = 0 ↔ chars = [] := by
  constructor
  · intro zero
    apply Classical.byContradiction
    intro nonempty
    have := width_pos nonempty
    omega
  · rintro rfl
    rfl

theorem splitAt?_zero (chars : List Char) : splitAt? chars 0 = some ([], chars) := by
  cases chars <;> rfl

theorem splitAt?_zero_eq_some_iff {chars before after : List Char} :
    splitAt? chars 0 = some (before, after) ↔ chars = before ++ after ∧ width before = 0 := by
  rw [splitAt?_zero, Option.some.injEq, Prod.mk.injEq, width_eq_zero]
  constructor
  · rintro ⟨rfl, rfl⟩
    exact ⟨rfl, rfl⟩
  · rintro ⟨parts, rfl⟩
    exact ⟨rfl, parts⟩

/-- A first part that has a width starts with the first character. -/
theorem parts_cons_iff {c : Char} {rest before after : List Char} {column : Nat}
    (positive : 0 < column) :
    c :: rest = before ++ after ∧ width before = column ↔
      ∃ front, before = c :: front ∧ rest = front ++ after ∧ units c + width front = column := by
  constructor
  · rintro ⟨parts, wide⟩
    cases before with
    | nil =>
      rw [width_nil] at wide
      omega
    | cons d front =>
      obtain ⟨rfl, rfl⟩ := List.cons.inj parts
      exact ⟨front, rfl, rfl, wide⟩
  · rintro ⟨front, rfl, rfl, wide⟩
    exact ⟨rfl, wide⟩

/-- Parting at a column finds the parts of which the first one is as wide as the column. -/
theorem splitAt?_eq_some_iff {chars before after : List Char} {column : Nat} :
    splitAt? chars column = some (before, after) ↔
      chars = before ++ after ∧ width before = column := by
  induction chars generalizing before after column with
  | nil =>
    cases column with
    | zero => exact splitAt?_zero_eq_some_iff
    | succ column =>
      simp only [splitAt?, reduceCtorEq, false_iff]
      rintro ⟨parts, wide⟩
      obtain ⟨rfl, -⟩ := List.append_eq_nil_iff.mp parts.symm
      simp at wide
  | cons c rest ih =>
    cases column with
    | zero => exact splitAt?_zero_eq_some_iff
    | succ column =>
      rw [parts_cons_iff (Nat.succ_pos column)]
      unfold splitAt?
      split
      · rename_i fits
        simp only [Option.map_eq_some_iff, Prod.exists, Prod.mk.injEq, ih]
        constructor
        · rintro ⟨front, back, ⟨rfl, wide⟩, rfl, rfl⟩
          exact ⟨front, rfl, rfl, by omega⟩
        · rintro ⟨front, rfl, rfl, wide⟩
          exact ⟨front, after, ⟨rfl, by omega⟩, rfl, rfl⟩
      · rename_i wider
        simp only [reduceCtorEq, false_iff]
        rintro ⟨front, -, -, wide⟩
        omega

/-- Of two first parts of the same characters, the one with more characters is the wider one. -/
theorem width_lt_iff {a b c d : List Char} (same : a ++ b = c ++ d) :
    width a < width c ↔ a.length < c.length := by
  rcases List.append_eq_append_iff.mp same with ⟨more, rfl, rfl⟩ | ⟨more, rfl, rfl⟩
  · cases more with
    | nil => simp
    | cons e rest =>
      have := units_pos e
      simp only [width_append, width_cons, List.length_append, List.length_cons]
      omega
  · simp only [width_append, List.length_append]
    omega

/-- The column after the bytes of the first characters is the width of those characters. -/
theorem columnOfByte_byteSize (front back : List Char) :
    columnOfByte (front ++ back) (byteSize front) = width front := by
  induction front with
  | nil =>
    cases back with
    | nil => rfl
    | cons c rest =>
      have positive : ¬ c.utf8Size ≤ 0 := Nat.not_le.mpr c.utf8Size_pos
      simp [columnOfByte, byteSize, positive]
  | cons c rest ih =>
    simp [columnOfByte, byteSize, ih]

end LanguageServer.Utf16
