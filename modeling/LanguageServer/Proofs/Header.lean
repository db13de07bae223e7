import LanguageServer.Diagnostic
import LanguageServer.Proofs.Utf16
import LanguageServer.Proofs.WhiteSpace
/-!
# Declaration headers

The grammar of header lines told without the reader: `Header.WellFormed` says what the parts of a
header are, and a line is read as the well-formed header with its characters, if there is one
(`ofLine?_eq_some_iff`). `Header.Unquoted` says which headers have a name that should be quoted; a
line has a diagnostic if it has such a header (`Diagnostic.ofLine?_eq_some_iff`).
-/

namespace LanguageServer

open Unicode

namespace Header

/-- What the parts of a header are. The name reaches to the last colon, for only white space stands
behind that one. -/
structure WellFormed (header : Header) : Prop where
  indent : Blank header.indent
  word_ne_nil : header.word ≠ []
  word : ∀ c ∈ header.word, isWord c = true
  gap_ne_nil : header.gap ≠ []
  gap : Blank header.gap
  name : ∃ c rest, header.name = c :: rest ∧ isWhiteSpace c = false
  tail : Blank header.tail

theorem not_isWhiteSpace_of_isWord {c : Char} (h : isWord c = true) : isWhiteSpace c = false := by
  cases blank : isWhiteSpace c with
  | false => rfl
  | true => cases h.symm.trans (not_isWord_of_isWhiteSpace blank)

/-! ## Reading -/

section

variable {header : Header} {c : Char}

theorem WellFormed.stops_indent (h : header.WellFormed) (rest : List Char)
    (first : (header.word ++ rest).head? = some c) : isWhiteSpace c = false :=
  of_head?_append h.word_ne_nil (fun d member => not_isWhiteSpace_of_isWord (h.word d member)) first

theorem WellFormed.stops_word (h : header.WellFormed) (rest : List Char)
    (first : (header.gap ++ rest).head? = some c) : isWord c = false :=
  of_head?_append h.gap_ne_nil (fun d member => not_isWord_of_isWhiteSpace (h.gap d member)) first

theorem WellFormed.stops_gap (h : header.WellFormed) (rest : List Char)
    (first : (header.name ++ rest).head? = some c) : isWhiteSpace c = false := by
  obtain ⟨d, more, name, solid⟩ := h.name
  obtain rfl : d = c := by simpa [name] using first
  exact solid

end

theorem stops_tail (rest : List Char) (c : Char) (first : (':' :: rest).head? = some c) :
    isWhiteSpace c = false := by
  obtain rfl : ':' = c := by simpa using first
  exact not_isWhiteSpace_colon

theorem chars_eq (header : Header) :
    header.chars = header.indent ++ (header.word ++ (header.gap ++
      (header.name ++ ':' :: header.tail))) := by
  simp [chars, lead]

/-- A well-formed header is what its characters are read as. -/
theorem ofLine?_chars {header : Header} (h : header.WellFormed) :
    ofLine? header.chars = some header := by
  obtain ⟨c, rest, name, solid⟩ := h.name
  have filled : header.name.reverse ≠ [] := by simp [name]
  obtain ⟨d, more, reversed⟩ := List.exists_cons_of_ne_nil filled
  have whole : (d :: more).reverse = header.name := by rw [← reversed, List.reverse_reverse]
  have tail := blank_reverse.mpr h.tail
  unfold ofLine?
  rw [chars_eq]
  simp only [takeWhile_append_of_stops h.indent (fun _ => h.stops_indent _),
    dropWhile_append_of_stops h.indent (fun _ => h.stops_indent _),
    takeWhile_append_of_stops h.word (fun _ => h.stops_word _),
    dropWhile_append_of_stops h.word (fun _ => h.stops_word _),
    takeWhile_append_of_stops h.gap (fun _ => h.stops_gap _),
    dropWhile_append_of_stops h.gap (fun _ => h.stops_gap _),
    List.reverse_append, List.reverse_cons, List.append_assoc, List.singleton_append,
    takeWhile_append_of_stops tail (stops_tail _), dropWhile_append_of_stops tail (stops_tail _),
    reversed, h.word_ne_nil, h.gap_ne_nil, or_self, if_false, whole, List.reverse_reverse]

/-- What is read from a line are its parts, and they are well formed. -/
theorem wellFormed_of_ofLine? {line : List Char} {header : Header}
    (h : ofLine? line = some header) : header.WellFormed ∧ header.chars = line := by
  unfold ofLine? at h
  extract_lets rest word rest' gap reversed at h
  split at h
  · rename_i last name found
    split at h
    · cases h
    · rename_i filled
      rw [not_or] at filled
      cases h
      have body : rest'.dropWhile isWhiteSpace =
          (last :: name).reverse ++ ':' :: (reversed.takeWhile isWhiteSpace).reverse := by
        have parts := List.takeWhile_append_dropWhile (p := isWhiteSpace) (l := reversed)
        rw [found] at parts
        have turned := congrArg List.reverse parts
        simpa [reversed] using turned.symm
      refine ⟨⟨blank_takeWhile line, filled.1, ?_, filled.2, blank_takeWhile rest', ?_,
        blank_reverse.mpr (blank_takeWhile reversed)⟩, ?_⟩
      · intro c member
        exact List.mem_takeWhile_imp member
      · have nonempty : rest'.dropWhile isWhiteSpace ≠ [] := by simp [body]
        have solid := List.head_dropWhile_not isWhiteSpace nonempty
        obtain ⟨c, more, parts⟩ := List.exists_cons_of_ne_nil
          (show (last :: name).reverse ≠ [] by simp)
        refine ⟨c, more, parts, ?_⟩
        simpa [body, parts] using solid
      · rw [chars_eq, ← body, List.takeWhile_append_dropWhile, List.takeWhile_append_dropWhile,
          List.takeWhile_append_dropWhile]
  · cases h

/-- A line is read as the well-formed header that it consists of, if there is one. -/
theorem ofLine?_eq_some_iff {line : List Char} {header : Header} :
    ofLine? line = some header ↔ header.WellFormed ∧ header.chars = line := by
  constructor
  · exact wellFormed_of_ofLine?
  · rintro ⟨h, rfl⟩
    exact ofLine?_chars h

/-- The parts of a well-formed header are those of its characters. -/
theorem WellFormed.eq_of_chars {a b : Header} (ha : a.WellFormed) (hb : b.WellFormed)
    (same : a.chars = b.chars) : a = b := by
  have first := ofLine?_chars ha
  rw [same, ofLine?_chars hb] at first
  exact (Option.some.inj first).symm

/-! ## Names that should be quoted -/

/-- A header that declares something under a name of several words and without quotes: a space
stands in the name, and something other than white space behind that space. -/
structure Unquoted (header : Header) : Prop where
  indent : Blank header.indent
  word : String.ofList header.word ∈ Category.declarations.keywords
  gap_ne_nil : header.gap ≠ []
  gap : Blank header.gap
  start : ∃ c rest, header.name = c :: rest ∧ isWhiteSpace c = false ∧ c ≠ '"'
  space : ∃ front back, header.name = front ++ ' ' :: back ∧ ¬ Blank back
  tail : Blank header.tail

/-- Keywords are words. -/
theorem isWord_of_keyword {word : List Char}
    (h : String.ofList word ∈ Category.declarations.keywords) :
    word ≠ [] ∧ ∀ c ∈ word, isWord c = true := by
  have all : (Category.declarations.keywords.all fun keyword =>
      keyword.toList ≠ [] && keyword.toList.all isWord) = true := by decide +kernel
  simpa using List.all_eq_true.mp all _ h

theorem isMultiWord_iff {header : Header} :
    Diagnostic.isMultiWord header = true ↔
      String.ofList header.word ∈ Category.declarations.keywords ∧
      (∃ front back, header.name = front ++ ' ' :: back ∧ ¬ Blank back) ∧
      header.name.head? ≠ some '"' := by
  rw [← space_mem_trimEnd_iff]
  simp [Diagnostic.isMultiWord, Keyword.isDeclaration, and_assoc]

theorem unquoted_iff {header : Header} :
    header.Unquoted ↔ header.WellFormed ∧ Diagnostic.isMultiWord header = true := by
  rw [isMultiWord_iff]
  constructor
  · intro h
    obtain ⟨filled, word⟩ := isWord_of_keyword h.word
    obtain ⟨c, rest, name, solid, bare⟩ := h.start
    refine ⟨⟨h.indent, filled, word, h.gap_ne_nil, h.gap, ⟨c, rest, name, solid⟩, h.tail⟩,
      h.word, h.space, ?_⟩
    simpa [name] using bare
  · rintro ⟨h, word, space, bare⟩
    obtain ⟨c, rest, name, solid⟩ := h.name
    refine ⟨h.indent, word, h.gap_ne_nil, h.gap, ⟨c, rest, name, solid, ?_⟩, space, h.tail⟩
    simpa [name] using bare

end Header

/-- What there is to say about a line is about the header with an unquoted name that it is. -/
theorem Diagnostic.ofLine?_eq_some_iff {number : Nat} {line : List Char}
    {diagnostic : Diagnostic} :
    ofLine? number line = some diagnostic ↔
      ∃ header : Header, header.Unquoted ∧ header.chars = line ∧
        ofHeader number header = diagnostic := by
  simp only [ofLine?, Option.map_eq_some_iff, Option.filter_eq_some_iff,
    Header.ofLine?_eq_some_iff, Header.unquoted_iff]
  constructor
  · rintro ⟨header, ⟨⟨wellFormed, parts⟩, multi⟩, made⟩
    exact ⟨header, ⟨wellFormed, multi⟩, parts, made⟩
  · rintro ⟨header, ⟨wellFormed, multi⟩, parts, made⟩
    exact ⟨header, ⟨⟨wellFormed, parts⟩, multi⟩, made⟩

end LanguageServer
