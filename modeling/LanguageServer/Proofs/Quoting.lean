import LanguageServer.Proofs.Header
import LanguageServer.Proofs.Splice
import LanguageServer.Proofs.Store
/-!
# Quoting the name that a diagnostic marks

A diagnostic marks a name in the text, and putting the name between double quotes settles it. The
diagnostics of a text are in the order of their lines, with at most one on each line
(`pairwise_scan`), and they depend on nothing but the line. So an edit that quotes the name takes
this diagnostic away and no other (`scan_of_quoting`).
-/

namespace LanguageServer

namespace Diagnostic

open Unicode

/-- The edit that quotes the marked name: a double quote where it starts, and then one where it
stops, which is one column further by then. -/
def quoting (diagnostic : Diagnostic) : List Change :=
  let start := diagnostic.range.start
  let stop : Position :=
    ⟨diagnostic.range.stop.line, diagnostic.range.stop.character + 1⟩
  [⟨some ⟨start, start⟩, "\""⟩, ⟨some ⟨stop, stop⟩, "\""⟩]

/-! ## The diagnostics of some lines -/

theorem ofLines_append (first : Nat) (front back : List (List Char)) :
    ofLines first (front ++ back) = ofLines first front ++ ofLines (first + front.length) back := by
  induction front generalizing first with
  | nil => simp [ofLines]
  | cons line rest ih =>
    have count : first + 1 + rest.length = first + (line :: rest).length := by
      rw [List.length_cons]
      omega
    rw [List.cons_append, ofLines, ofLines, ih, count, List.append_assoc]

theorem mem_ofLines {first : Nat} {lines : List (List Char)} {diagnostic : Diagnostic} :
    diagnostic ∈ ofLines first lines ↔ ∃ front line back, lines = front ++ line :: back ∧
      ofLine? (first + front.length) line = some diagnostic := by
  constructor
  · induction lines generalizing first with
    | nil => intro member; cases member
    | cons line rest ih =>
      intro member
      rcases List.mem_append.mp member with here | later
      · exact ⟨[], line, rest, rfl, Option.mem_toList.mp here⟩
      · obtain ⟨front, found, back, rfl, about⟩ := ih later
        refine ⟨line :: front, found, back, rfl, ?_⟩
        rw [List.length_cons, ← about]
        congr 1
        omega
  · rintro ⟨front, line, back, rfl, about⟩
    rw [ofLines_append, ofLines, about]
    simp

/-- A diagnostic is about the line that it is for. -/
theorem line_of_ofLine? {number : Nat} {line : List Char} {diagnostic : Diagnostic}
    (about : ofLine? number line = some diagnostic) :
    diagnostic.range.start.line = .ofNat number ∧ diagnostic.range.stop.line = .ofNat number := by
  obtain ⟨header, -, -, rfl⟩ := ofLine?_eq_some_iff.mp about
  exact ⟨rfl, rfl⟩

theorem pairwise_ofLines {first : Nat} {lines : List (List Char)}
    (bound : first + lines.length ≤ UInt32.size) :
    (ofLines first lines).Pairwise fun a b => a.range.start.line < b.range.start.line := by
  induction lines generalizing first with
  | nil => exact .nil
  | cons line rest ih =>
    rw [List.length_cons] at bound
    refine List.pairwise_append.mpr ⟨?_, ih (by omega), ?_⟩
    · cases ofLine? first line with
      | none => exact .nil
      | some diagnostic => exact List.pairwise_singleton _ _
    · intro a here b later
      obtain ⟨front, found, back, rfl, about⟩ := mem_ofLines.mp later
      rw [List.length_append, List.length_cons] at bound
      rw [(line_of_ofLine? (Option.mem_toList.mp here)).1, (line_of_ofLine? about).1,
        UInt32.lt_iff_toNat_lt, UInt32.toNat_ofNat_of_lt' (by omega),
        UInt32.toNat_ofNat_of_lt' (by omega)]
      omega

/-- The diagnostics of a text are in the order of their lines. -/
theorem pairwise_scan {text : Text} (lines : text.lineCount < UInt32.size) :
    (scan text).Pairwise fun a b => a.range.start.line < b.range.start.line := by
  have bound : 0 + text.lines.length ≤ UInt32.size := by
    rw [Nat.zero_add]
    exact Nat.le_of_lt lines
  exact pairwise_ofLines bound

theorem nodup_scan {text : Text} (lines : text.lineCount < UInt32.size) :
    (scan text).Nodup := by
  refine (pairwise_scan lines).imp ?_
  rintro a b less rfl
  exact UInt32.lt_irrefl _ less

theorem scan_eq_of_lines {text : Text} {front back : List (List Char)} {line : List Char}
    (lines : text.lines = front ++ line :: back) :
    scan text = ofLines 0 front ++
      ((ofLine? front.length line).toList ++ ofLines (front.length + 1) back) := by
  rw [scan, lines, ofLines_append, Nat.zero_add, ofLines]

/-! ## Messages -/

/-- A message tells its keyword and its name. -/
theorem multiWordMessage_inj {word word' name name' : String}
    (h : word ∈ Category.declarations.keywords) (h' : word' ∈ Category.declarations.keywords)
    (same : multiWordMessage word name = multiWordMessage word' name') :
    word = word' ∧ name = name' := by
  have run (word : String) (keyword : word ∈ Category.declarations.keywords) (rest : List Char) :
      (word.toList ++ '`' :: rest).takeWhile isWord = word.toList := by
    refine takeWhile_append_of_stops ?_ ?_
    · exact (Header.isWord_of_keyword (by rwa [String.ofList_toList])).2
    · intro c first
      obtain rfl : '`' = c := by simpa using first
      decide +kernel
  delta multiWordMessage at same
  have chars := congrArg String.toList same
  simp only [String.toList_append, List.append_assoc] at chars
  replace chars := List.append_cancel_left chars
  have words : word.toList = word'.toList := by
    have runs := congrArg (List.takeWhile isWord) chars
    rwa [show "` names should be quoted: `".toList = '`' :: " names should be quoted: `".toList
      from rfl, List.cons_append, List.cons_append, run word h, run word' h'] at runs
  rw [words] at chars
  have names := List.append_cancel_right (List.append_cancel_left (List.append_cancel_left chars))
  exact ⟨String.toList_inj.mp words, String.toList_inj.mp names⟩

end Diagnostic

/-! ## The edit -/

namespace Header

/-- The header with its name between double quotes. -/
def quoted (header : Header) : Header := { header with name := '"' :: header.name ++ ['"'] }

theorem width_chars (header : Header) : Utf16.width header.chars =
    Utf16.width header.lead + Utf16.width header.name + (1 + Utf16.width header.tail) := by
  have colon : Utf16.units ':' = 1 := rfl
  rw [chars, Utf16.width_append, Utf16.width_append, Utf16.width_cons, colon]

/-- There is nothing to say about a line with a quoted name. -/
theorem ofLine?_quoted {header : Header} (h : header.Unquoted) (number : Nat) :
    Diagnostic.ofLine? number header.quoted.chars = none := by
  have parts := (unquoted_iff.mp h).1
  have wellFormed : header.quoted.WellFormed :=
    ⟨parts.indent, parts.word_ne_nil, parts.word, parts.gap_ne_nil, parts.gap,
      ⟨'"', header.name ++ ['"'], rfl, by decide⟩, parts.tail⟩
  have single : Diagnostic.isMultiWord header.quoted = false := by
    simp [Diagnostic.isMultiWord, quoted]
  rw [Diagnostic.ofLine?, ofLine?_chars wellFormed, Option.filter_some, single]
  rfl

end Header

namespace Diagnostic

section

variable {text : Text} {front back : List (List Char)} {header : Header}

theorem mem_scan {diagnostic : Diagnostic} :
    diagnostic ∈ scan text ↔ ∃ front header back, Header.Unquoted header ∧
      text.lines = front ++ header.chars :: back ∧ ofHeader front.length header = diagnostic := by
  rw [scan, mem_ofLines]
  constructor
  · rintro ⟨front, line, back, lines, about⟩
    rw [Nat.zero_add] at about
    obtain ⟨header, unquoted, rfl, made⟩ := ofLine?_eq_some_iff.mp about
    exact ⟨front, header, back, unquoted, lines, made⟩
  · rintro ⟨front, header, back, unquoted, lines, made⟩
    refine ⟨front, header.chars, back, lines, ?_⟩
    rw [Nat.zero_add]
    exact ofLine?_eq_some_iff.mpr ⟨header, unquoted, rfl, made⟩

/-- What a diagnostic marks lies in the text, and is the name. -/
theorem exists_cuts_of_header (lines_eq : text.lines = front ++ header.chars :: back)
    (number : front.length < UInt32.size) (short : Utf16.width header.chars < UInt32.size) :
    ∃ (start : text.Cut (ofHeader front.length header).range.start)
      (stop : text.Cut (ofHeader front.length header).range.stop),
      (text.chars.take stop.offset).drop start.offset = header.name := by
  rw [Header.width_chars] at short
  have lines_eq' := lines_eq
  rw [Header.chars, List.append_assoc] at lines_eq'
  obtain ⟨start, before, -⟩ := Text.exists_cut (ofHeader front.length header).range.start
    lines_eq' (Text.line_ofNat number _) (Text.character_ofNat (by omega) _)
  obtain ⟨stop, before', -⟩ := Text.exists_cut (ofHeader front.length header).range.stop
    lines_eq (Text.line_ofNat number _)
    ((Text.character_ofNat (by omega) _).trans (Utf16.width_append _ _).symm)
  exact ⟨start, stop, start.between stop rfl (by rw [before, before'])⟩

theorem toNat_ofNat_add_one {column : Nat} (h : column + 1 < UInt32.size) :
    (UInt32.ofNat column + 1).toNat = column + 1 := by
  rw [UInt32.toNat_add, UInt32.toNat_ofNat_of_lt' (Nat.lt_of_succ_lt h)]
  exact Nat.mod_eq_of_lt h

/-- The edit puts the quoted header in the place of the header. -/
theorem applyAll_quoting (lines_eq : text.lines = front ++ header.chars :: back)
    (number : front.length < UInt32.size) (short : Utf16.width header.chars < UInt32.size) :
    ∃ changed, text.applyAll (ofHeader front.length header).quoting = .ok changed ∧
      changed.lines = front ++ header.quoted.chars :: back := by
  rw [Header.width_chars] at short
  have unbroken : Unbroken "\"".toList := by simp [Unbroken, IsBreak]
  have lines_eq' := lines_eq
  rw [Header.chars, List.append_assoc] at lines_eq'
  obtain ⟨middle, first, middle_eq⟩ := Text.apply_insert
    (ofHeader front.length header).range.start lines_eq' (Text.line_ofNat number _)
    (Text.character_ofNat (by omega) _) unbroken
  have middle_eq' : middle.lines =
      front ++ (header.lead ++ '"' :: header.name ++ ':' :: header.tail) :: back := by
    rw [middle_eq]
    simp
  let moved : Position :=
    ⟨.ofNat front.length, .ofNat (Utf16.width header.lead + Utf16.width header.name) + 1⟩
  have column : moved.character.toNat = Utf16.width (header.lead ++ '"' :: header.name) := by
    have quote : Utf16.units '"' = 1 := rfl
    rw [toNat_ofNat_add_one (by omega), Utf16.width_append, Utf16.width_cons]
    omega
  obtain ⟨changed, second, changed_eq⟩ := Text.apply_insert moved middle_eq'
    (Text.line_ofNat number _) column unbroken
  refine ⟨changed, ?_, ?_⟩
  · exact Text.applyAll_cons_eq_ok.mpr
      ⟨middle, first, Text.applyAll_cons_eq_ok.mpr ⟨changed, second, rfl⟩⟩
  · rw [changed_eq]
    simp [Header.chars, Header.lead, Header.quoted]

/-- Without the header, a text has the other diagnostics and no more. -/
theorem scan_eq_erase {changed : Text} (lines : text.lineCount < UInt32.size)
    (unquoted : header.Unquoted) (lines_eq : text.lines = front ++ header.chars :: back)
    (changed_eq : changed.lines = front ++ header.quoted.chars :: back) :
    scan changed = (scan text).erase (ofHeader front.length header) := by
  have about : ofLine? front.length header.chars = some (ofHeader front.length header) :=
    ofLine?_eq_some_iff.mpr ⟨header, unquoted, rfl, rfl⟩
  have before := scan_eq_of_lines lines_eq
  have after := scan_eq_of_lines changed_eq
  rw [about, Option.toList_some, List.singleton_append] at before
  rw [Header.ofLine?_quoted unquoted, Option.toList_none, List.nil_append] at after
  have distinct := nodup_scan lines
  rw [before] at distinct
  have earlier : ofHeader front.length header ∉ ofLines 0 front := fun inside =>
    (List.nodup_append.mp distinct).2.2 _ inside _ List.mem_cons_self rfl
  rw [after, before, List.erase_append_right _ earlier, List.erase_cons_head]

end

/-- Every diagnostic of a text marks, on one line of it, the name that its message quotes. Quoting
the name there is an edit that every newer version of the document can make, and it leaves all other
diagnostics as they are. -/
theorem scan_of_quoting (text : Text) (lines : text.lineCount < UInt32.size)
    (columns : ∀ line ∈ text.lines, Utf16.width line < UInt32.size) (diagnostic : Diagnostic)
    (member : diagnostic ∈ scan text) :
    diagnostic.range.start.line = diagnostic.range.stop.line ∧
    diagnostic.range.start < diagnostic.range.stop ∧
    (∃ a b word name,
      text.resolve diagnostic.range.start = .ok a ∧ text.resolve diagnostic.range.stop = .ok b ∧
      word ∈ Category.declarations.keywords ∧
      diagnostic.message = multiWordMessage word name ∧
      (∀ word' ∈ Category.declarations.keywords, ∀ name',
        diagnostic.message = multiWordMessage word' name' → word' = word ∧ name' = name) ∧
      (text.chars.take b).drop a = name.toList) ∧
    (diagnostic.range.stop.character + 1).toNat = diagnostic.range.stop.character.toNat + 1 ∧
    (scan text).Nodup ∧
    ∃ changed, scan changed = (scan text).erase diagnostic ∧
      ∀ (store : Store) uri document version, store.document? uri = some document →
        document.text = text → document.version < version →
        ∃ next, store.edit uri diagnostic.quoting version = .ok next ∧
          next.document? uri = some ⟨version, changed⟩ := by
  obtain ⟨front, header, back, unquoted, lines_eq, rfl⟩ := mem_scan.mp member
  have number : front.length < UInt32.size := by
    simp only [Text.lineCount, lines_eq, List.length_append, List.length_cons] at lines
    omega
  have short := columns header.chars (by simp [lines_eq])
  have parts := header.width_chars
  have start : (ofHeader front.length header).range.start.character.toNat =
      Utf16.width header.lead := Text.character_ofNat (by omega) _
  have stop : (ofHeader front.length header).range.stop.character.toNat =
      Utf16.width header.lead + Utf16.width header.name := Text.character_ofNat (by omega) _
  refine ⟨rfl, ?_, ?_, ?_, nodup_scan lines, ?_⟩
  · obtain ⟨c, rest, name, -⟩ := unquoted.start
    have filled : 0 < Utf16.width header.name := Utf16.width_pos (by simp [name])
    refine .inr ⟨rfl, UInt32.lt_iff_toNat_lt.mpr ?_⟩
    omega
  · obtain ⟨start, stop, marked⟩ := exists_cuts_of_header lines_eq number short
    refine ⟨start.offset, stop.offset, String.ofList header.word, String.ofList header.name,
      Text.resolve_eq_ok.mpr (Text.offset?_eq_some_iff.mpr ⟨start, rfl⟩),
      Text.resolve_eq_ok.mpr (Text.offset?_eq_some_iff.mpr ⟨stop, rfl⟩), unquoted.word, rfl, ?_,
      by rw [marked, String.toList_ofList]⟩
    intro word keyword name same
    exact multiWordMessage_inj keyword unquoted.word same.symm
  · rw [stop]
    exact toNat_ofNat_add_one (by omega)
  · obtain ⟨changed, applied, changed_eq⟩ := applyAll_quoting lines_eq number short
    refine ⟨changed, scan_eq_erase lines unquoted lines_eq changed_eq, ?_⟩
    rintro store uri document version found rfl newer
    refine ⟨store.put uri ⟨version, changed⟩,
      Store.edit_eq_ok.mpr ⟨document, changed, found, newer, applied, rfl⟩, ?_⟩
    rw [Store.document?_put, if_pos rfl]

theorem scan_of_quoting_first_line :
    let text := Text.ofString "\tpage 👋 Hi :\r\nmodel C D:"
    let diagnostic : Diagnostic :=
      ⟨.warning, ⟨⟨0, 6⟩, ⟨0, 12⟩⟩, "Multi-word `page` names should be quoted: `👋 Hi `",
        some .multiWordName⟩
    let other : Diagnostic :=
      ⟨.warning, ⟨⟨1, 6⟩, ⟨1, 9⟩⟩, "Multi-word `model` names should be quoted: `C D`",
        some .multiWordName⟩
    let store := Store.empty.put "file:///a" ⟨-1, text⟩
    text.lineCount < UInt32.size ∧ (∀ line ∈ text.lines, Utf16.width line < UInt32.size) ∧
      diagnostic ∈ scan text ∧ ∃ next changed,
        store.edit "file:///a" diagnostic.quoting 0 = .ok next ∧
        next.document? "file:///a" = some ⟨0, changed⟩ ∧ scan changed = [other] := by
  intro text diagnostic other store
  have both : scan text = [diagnostic, other] := by decide +kernel
  have lines : text.lineCount < UInt32.size := by decide
  have columns : ∀ line ∈ text.lines, Utf16.width line < UInt32.size := by decide
  have member : diagnostic ∈ scan text := both ▸ List.mem_cons_self
  obtain ⟨-, -, -, -, -, changed, left, edit⟩ :=
    scan_of_quoting text lines columns diagnostic member
  obtain ⟨next, accepted, found⟩ :=
    edit store "file:///a" ⟨-1, text⟩ 0 (by decide) rfl (by decide)
  exact ⟨lines, columns, member, next, changed, accepted, found,
    left.trans (by rw [both, List.erase_cons_head])⟩

end Diagnostic

end LanguageServer
