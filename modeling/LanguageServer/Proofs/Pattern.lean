import LanguageServer.Proofs.Header
import LanguageServer.Proofs.Position
/-!
# Headers as matches of a pattern

A backtracking matcher takes the choices of a pattern in a fixed order and keeps the first one with
which the rest of the pattern matches (`Pattern.run`), so it finds one wherever there is one
(`isSome_search_iff`). Headers are the matches of `^\s*(\w+)\s+(.+?):\s*$` (`Pattern.header`), whose
repetitions overlap: a name may hold colons and may start with white space. Nevertheless what is
captured on a line that is a header are the parts of this header (`search_chars`), and a match on
another line captures a blank name (`exists_of_search`). So the match and the header give the same
diagnostic (`ofLine?_eq_ofMatch?`), which there is if the name of the header is unquoted
(`diagnostics_of_headers`).
-/

namespace LanguageServer

open Unicode

/-- What a group has captured, and what stands before it on the line. -/
structure Capture where
  before : List Char
  text : List Char
  deriving DecidableEq, Repr

/-- How far a match has got on a line, and what its groups have captured, in their order. -/
structure Progress where
  passed : List Char
  left : List Char
  groups : List Capture

inductive Pattern
  /-- `^` -/
  | start
  /-- `$` -/
  | stop
  /-- One character of a class. -/
  | one (p : Char → Bool)
  /-- Characters of a class: the more the better as `*`, which is greedy, and the fewer the better
  as `*?`. -/
  | many (greedy : Bool) (p : Char → Bool)
  | seq (first second : Pattern)
  | group (body : Pattern)

namespace Pattern

/-- Passes characters of a class and goes on. Passing one more is tried before going on at once, or
after that if the repetition is not greedy. -/
def runMany (greedy : Bool) (p : Char → Bool) (next : Progress → Option Progress)
    (groups : List Capture) : List Char → List Char → Option Progress
  | passed, [] => next ⟨passed, [], groups⟩
  | passed, c :: rest =>
    let here := next ⟨passed, c :: rest, groups⟩
    if p c then
      let longer := runMany greedy p next groups (passed ++ [c]) rest
      if greedy then longer.or here else here.or longer
    else here

/-- The group that a match has gone through from one place to another. -/
def capture (place reached : Progress) : Progress :=
  { reached with
    groups := reached.groups ++ [⟨place.passed, reached.passed.drop place.passed.length⟩] }

/-- The first way to match a pattern with which `next` succeeds. -/
def run : Pattern → (Progress → Option Progress) → Progress → Option Progress
  | start, next, place => if place.passed = [] then next place else none
  | stop, next, place => if place.left = [] then next place else none
  | one p, next, place =>
    match place.left with
    | c :: rest => if p c then next ⟨place.passed ++ [c], rest, place.groups⟩ else none
    | [] => none
  | many greedy p, next, place => runMany greedy p next place.groups place.passed place.left
  | seq first second, next, place => run first (run second next) place
  | group body, next, place => run body (fun reached => next (capture place reached)) place

/-- What the groups of a pattern capture where it matches first on a line. -/
def search (pattern : Pattern) (line : List Char) : Option (List Capture) :=
  ((List.range (line.length + 1)).findSome? fun first =>
    pattern.run some ⟨line.take first, line.drop first, []⟩).map Progress.groups

/-- One or more characters of a class, as `+` or `+?`. -/
def oneOrMore (greedy : Bool) (p : Char → Bool) : Pattern := seq (one p) (many greedy p)

/-- A colon and white space to the end of the line. -/
def closing : Pattern := seq (one (· == ':')) (seq (many true isWhiteSpace) stop)

/-- The pattern of a header. A dot stands for all characters but a line feed. -/
def header : Pattern :=
  seq start <| seq (many true isWhiteSpace) <| seq (group (oneOrMore true isWord)) <|
  seq (oneOrMore true isWhiteSpace) <| seq (group (oneOrMore false (· != '\n'))) closing

/-! ## What is matched -/

/-- Where a pattern may have got from a place, whatever its choices. -/
def Reaches : Pattern → Progress → Progress → Prop
  | start, place, reached => place.passed = [] ∧ reached = place
  | stop, place, reached => place.left = [] ∧ reached = place
  | one p, place, reached => ∃ c rest, place.left = c :: rest ∧ p c = true ∧
    reached = ⟨place.passed ++ [c], rest, place.groups⟩
  | many _ p, place, reached => ∃ run rest, place.left = run ++ rest ∧
    (∀ c ∈ run, p c = true) ∧ reached = ⟨place.passed ++ run, rest, place.groups⟩
  | seq first second, place, reached =>
    ∃ middle, first.Reaches place middle ∧ second.Reaches middle reached
  | group body, place, reached =>
    ∃ middle, body.Reaches place middle ∧ reached = capture place middle

section

variable {p : Char → Bool} {next : Progress → Option Progress} {groups : List Capture}
  {passed left rest : List Char} {result : Progress}

theorem exists_of_runMany {greedy : Bool}
    (h : runMany greedy p next groups passed left = some result) :
    ∃ run rest, left = run ++ rest ∧ (∀ c ∈ run, p c = true) ∧
      next ⟨passed ++ run, rest, groups⟩ = some result := by
  induction left generalizing passed with
  | nil => exact ⟨[], [], rfl, by simp, by simpa [runMany] using h⟩
  | cons c rest ih =>
    have either : next ⟨passed, c :: rest, groups⟩ = some result ∨
        p c = true ∧ runMany greedy p next groups (passed ++ [c]) rest = some result := by
      unfold runMany at h
      by_cases inside : p c = true
      · rw [if_pos inside] at h
        cases greedy with
        | true => exact (Option.or_eq_some_iff.mp h).symm.imp And.right fun later => ⟨inside, later⟩
        | false => exact (Option.or_eq_some_iff.mp h).imp id fun later => ⟨inside, later.2⟩
      · rw [if_neg inside] at h
        exact .inl h
    rcases either with here | ⟨inside, later⟩
    · exact ⟨[], c :: rest, rfl, by simp, by simpa using here⟩
    · obtain ⟨run, back, rfl, all, goes⟩ := ih later
      exact ⟨c :: run, back, rfl, List.forall_mem_cons.mpr ⟨inside, all⟩, by simpa using goes⟩

/-- What is found is a match. -/
theorem exists_reaches_of_run {pattern : Pattern} {place : Progress}
    (h : pattern.run next place = some result) :
    ∃ reached, pattern.Reaches place reached ∧ next reached = some result := by
  induction pattern generalizing next place with
  | start =>
    unfold run at h
    split at h
    · exact ⟨place, ⟨‹_›, rfl⟩, h⟩
    · cases h
  | stop =>
    unfold run at h
    split at h
    · exact ⟨place, ⟨‹_›, rfl⟩, h⟩
    · cases h
  | one p =>
    unfold run at h
    split at h
    · rename_i c rest left
      split at h
      · rename_i inside
        exact ⟨_, ⟨c, rest, left, inside, rfl⟩, h⟩
      · cases h
    · cases h
  | many greedy p =>
    obtain ⟨run, rest, parts, all, goes⟩ := exists_of_runMany h
    exact ⟨_, ⟨run, rest, parts, all, rfl⟩, goes⟩
  | seq first second ih_first ih_second =>
    obtain ⟨middle, ahead, goes⟩ := ih_first h
    obtain ⟨reached, behind, goes⟩ := ih_second goes
    exact ⟨reached, ⟨middle, ahead, behind⟩, goes⟩
  | group body ih =>
    obtain ⟨middle, inside, goes⟩ := ih h
    exact ⟨_, ⟨middle, inside, rfl⟩, goes⟩

/-- A repetition is matched if the rest of the pattern matches behind any run. -/
theorem isSome_runMany {greedy : Bool} {run : List Char} (all : ∀ c ∈ run, p c = true)
    (goes : (next ⟨passed ++ run, rest, groups⟩).isSome) :
    (runMany greedy p next groups passed (run ++ rest)).isSome := by
  induction run generalizing passed with
  | nil =>
    rw [List.append_nil] at goes
    cases rest with
    | nil => exact goes
    | cons c more =>
      rw [List.nil_append, runMany]
      cases p c <;> cases greedy <;> simp [goes]
  | cons c more ih =>
    obtain ⟨inside, others⟩ := List.forall_mem_cons.mp all
    rw [List.append_cons] at goes
    have later := ih others goes
    rw [List.cons_append, runMany]
    cases greedy <;> simp [inside, later]

/-- Whatever choices lead to a match, taking them in their order finds one. -/
theorem isSome_run_of_reaches {pattern : Pattern} {place reached : Progress}
    (reaches : pattern.Reaches place reached) (goes : (next reached).isSome) :
    (pattern.run next place).isSome := by
  induction pattern generalizing next place reached with
  | start =>
    obtain ⟨first, rfl⟩ := reaches
    rw [run, if_pos first]
    exact goes
  | stop =>
    obtain ⟨last, rfl⟩ := reaches
    rw [run, if_pos last]
    exact goes
  | one p =>
    obtain ⟨c, rest, left, inside, rfl⟩ := reaches
    rw [run, left]
    simpa [inside] using goes
  | many greedy p =>
    obtain ⟨run, rest, parts, all, rfl⟩ := reaches
    rw [Pattern.run, parts]
    exact isSome_runMany all goes
  | seq first second ih_first ih_second =>
    obtain ⟨middle, ahead, behind⟩ := reaches
    exact ih_first ahead (ih_second behind goes)
  | group body ih =>
    obtain ⟨middle, inside, rfl⟩ := reaches
    exact ih inside goes

/-- A pattern is found on a line if it matches somewhere on it. -/
theorem isSome_search_iff {pattern : Pattern} {line : List Char} :
    (pattern.search line).isSome ↔
      ∃ before after reached, line = before ++ after ∧
        pattern.Reaches ⟨before, after, []⟩ reached := by
  rw [search, Option.isSome_map, List.isSome_findSome?, List.any_eq_true]
  constructor
  · rintro ⟨first, -, found⟩
    obtain ⟨result, found⟩ := Option.isSome_iff_exists.mp found
    obtain ⟨reached, reaches, -⟩ := exists_reaches_of_run found
    exact ⟨_, _, reached, (List.take_append_drop first line).symm, reaches⟩
  · rintro ⟨before, after, reached, rfl, reaches⟩
    refine ⟨before.length, List.mem_range.mpr ?_, ?_⟩
    · rw [List.length_append]
      omega
    · rw [List.take_left, List.drop_left]
      exact isSome_run_of_reaches reaches rfl

/-! ## What is matched first -/

/-- If the rest of the pattern matches behind the longest run, that is the match. -/
theorem runMany_greedy {run : List Char} (all : ∀ c ∈ run, p c = true)
    (stops : ∀ c, rest.head? = some c → p c = false)
    (goes : next ⟨passed ++ run, rest, groups⟩ = some result) :
    runMany true p next groups passed (run ++ rest) = some result := by
  induction run generalizing passed with
  | nil =>
    rw [List.append_nil] at goes
    cases rest with
    | nil => exact goes
    | cons c more =>
      rw [List.nil_append, runMany, if_neg (by simp [stops c rfl])]
      exact goes
  | cons c more ih =>
    have inside : p c = true := all c List.mem_cons_self
    rw [List.append_cons] at goes
    have later := ih (fun d member => all d (List.mem_cons_of_mem c member)) goes
    rw [List.cons_append, runMany, if_pos inside, if_pos rfl, later, Option.some_or]

/-- If the rest of the pattern matches behind no shorter run, a run is matched. -/
theorem runMany_lazy {run : List Char} (all : ∀ c ∈ run, p c = true)
    (early : ∀ front c back, run = front ++ c :: back →
      next ⟨passed ++ front, c :: back ++ rest, groups⟩ = none)
    (goes : next ⟨passed ++ run, rest, groups⟩ = some result) :
    runMany false p next groups passed (run ++ rest) = some result := by
  induction run generalizing passed with
  | nil =>
    rw [List.append_nil] at goes
    cases rest with
    | nil => exact goes
    | cons c more =>
      rw [List.nil_append, runMany, goes]
      split <;> rfl
  | cons c more ih =>
    have inside : p c = true := all c List.mem_cons_self
    have here := early [] c more rfl
    rw [List.append_nil] at here
    rw [List.append_cons] at goes
    have later := ih (fun d member => all d (List.mem_cons_of_mem c member))
      (fun front d back parts => by
        have skipped := early (c :: front) d back (by rw [parts, List.cons_append])
        rwa [List.append_cons] at skipped) goes
    rw [List.cons_append, runMany, if_pos inside, if_neg Bool.false_ne_true, ← List.cons_append,
      here, Option.none_or, later]

theorem run_oneOrMore_greedy {run : List Char} (nonempty : run ≠ []) (all : ∀ c ∈ run, p c = true)
    (stops : ∀ c, rest.head? = some c → p c = false)
    (goes : next ⟨passed ++ run, rest, groups⟩ = some result) :
    (oneOrMore true p).run next ⟨passed, run ++ rest, groups⟩ = some result := by
  obtain ⟨c, more, rfl⟩ := List.exists_cons_of_ne_nil nonempty
  obtain ⟨inside, others⟩ := List.forall_mem_cons.mp all
  rw [List.append_cons] at goes
  simp only [oneOrMore, Pattern.run, List.cons_append, inside, if_true]
  exact runMany_greedy others stops goes

theorem run_oneOrMore_lazy {run : List Char} (nonempty : run ≠ []) (all : ∀ c ∈ run, p c = true)
    (early : ∀ front c back, front ≠ [] → run = front ++ c :: back →
      next ⟨passed ++ front, c :: back ++ rest, groups⟩ = none)
    (goes : next ⟨passed ++ run, rest, groups⟩ = some result) :
    (oneOrMore false p).run next ⟨passed, run ++ rest, groups⟩ = some result := by
  obtain ⟨c, more, rfl⟩ := List.exists_cons_of_ne_nil nonempty
  obtain ⟨inside, others⟩ := List.forall_mem_cons.mp all
  rw [List.append_cons] at goes
  simp only [oneOrMore, Pattern.run, List.cons_append, inside, if_true]
  refine runMany_lazy others ?_ goes
  intro front d back parts
  have skipped := early (c :: front) d back (by simp) (by rw [parts, List.cons_append])
  rwa [List.append_cons] at skipped

end

/-! ## The pattern of headers -/

section

variable {p : Char → Bool} {passed left : List Char} {groups : List Capture} {reached : Progress}

theorem exists_of_reaches_oneOrMore {greedy : Bool}
    (h : (oneOrMore greedy p).Reaches ⟨passed, left, groups⟩ reached) :
    ∃ run rest, left = run ++ rest ∧ run ≠ [] ∧ (∀ c ∈ run, p c = true) ∧
      reached = ⟨passed ++ run, rest, groups⟩ := by
  obtain ⟨_, ⟨c, rest, parts, inside, rfl⟩, run, back, parts', all, rfl⟩ := h
  refine ⟨c :: run, back, ?_, by simp, List.forall_mem_cons.mpr ⟨inside, all⟩, by simp⟩
  exact parts.trans (congrArg (c :: ·) parts')

theorem capture_append (run rest : List Char) :
    capture ⟨passed, left, groups⟩ ⟨passed ++ run, rest, groups⟩ =
      ⟨passed ++ run, rest, groups ++ [⟨passed, run⟩]⟩ := by
  simp [capture]

theorem exists_of_reaches_closing (h : closing.Reaches ⟨passed, left, groups⟩ reached) :
    ∃ tail, left = ':' :: tail ∧ Blank tail ∧ reached.groups = groups := by
  obtain ⟨_, ⟨c, rest, parts, colon, rfl⟩, _, ⟨run, back, parts', all, rfl⟩, done, rfl⟩ := h
  obtain rfl : c = ':' := by simpa using colon
  obtain rfl : back = [] := done
  obtain rfl : rest = run := by simpa using parts'
  exact ⟨rest, parts, all, rfl⟩

end

/-- A colon that is not the last one does not close a header. -/
theorem run_closing_of_colon_behind {passed left tail : List Char} {groups : List Capture}
    {c : Char} :
    closing.run some ⟨passed, c :: left ++ ':' :: tail, groups⟩ = none := by
  rw [Option.eq_none_iff_forall_ne_some]
  intro result found
  obtain ⟨reached, reaches, -⟩ := exists_reaches_of_run found
  obtain ⟨blanks, parts, blank, -⟩ := exists_of_reaches_closing reaches
  have behind : blanks = left ++ ':' :: tail := (List.cons.inj parts).2.symm
  have white : isWhiteSpace ':' = true := blank ':' (by simp [behind])
  cases white.symm.trans not_isWhiteSpace_colon

theorem run_closing {passed tail : List Char} {groups : List Capture} (h : Blank tail) :
    closing.run some ⟨passed, ':' :: tail, groups⟩ =
      some ⟨passed ++ ':' :: tail, [], groups⟩ := by
  have whole : runMany true isWhiteSpace (stop.run some) groups (passed ++ [':']) (tail ++ []) =
      some ⟨passed ++ ':' :: tail, [], groups⟩ :=
    runMany_greedy h (by simp) (by simp [run])
  rw [List.append_nil] at whole
  simpa [closing, run] using whole

end Pattern

/-- What the groups of the pattern capture on a header. -/
def Header.captures (header : Header) : List Capture :=
  [⟨header.indent, header.word⟩, ⟨header.lead, header.name⟩]

namespace Pattern

/-- The parts of a header are what is matched first on it. -/
theorem search_chars {h : Header} (wellFormed : h.WellFormed) (unbroken : '\n' ∉ h.name) :
    header.search h.chars = some h.captures := by
  have found : header.run some ⟨[], h.chars, []⟩ = some ⟨h.chars, [], h.captures⟩ := by
    obtain ⟨c, rest, name, -⟩ := wellFormed.name
    have solid : ∀ c ∈ h.name, (c != '\n') = true := by
      intro c member
      simpa using ne_of_mem_of_not_mem member unbroken
    rw [Header.chars_eq, header]
    simp only [run, if_true]
    refine runMany_greedy wellFormed.indent (fun _ => wellFormed.stops_indent _) ?_
    refine run_oneOrMore_greedy wellFormed.word_ne_nil wellFormed.word
      (fun _ => wellFormed.stops_word _) ?_
    refine run_oneOrMore_greedy wellFormed.gap_ne_nil wellFormed.gap
      (fun _ => wellFormed.stops_gap _) ?_
    refine run_oneOrMore_lazy (by simp [name]) solid ?_ ?_
    · intro front d back _ _
      exact run_closing_of_colon_behind
    · refine (run_closing wellFormed.tail).trans ?_
      simp [Header.captures, Header.lead]
  simp only [search, List.range_succ_eq_map, List.findSome?_cons, List.take_zero, List.drop_zero,
    found, Option.map_some]

/-- What is matched has the parts of a header, but for white space that its name may start with. -/
theorem exists_parts_of_reaches {passed left : List Char} {reached : Progress}
    (h : header.Reaches ⟨passed, left, []⟩ reached) :
    passed = [] ∧ ∃ parts : Header, parts.chars = left ∧ parts.captures = reached.groups ∧
      Blank parts.indent ∧ parts.word ≠ [] ∧ (∀ c ∈ parts.word, isWord c = true) ∧
      parts.gap ≠ [] ∧ Blank parts.gap ∧ parts.name ≠ [] ∧ Blank parts.tail := by
  obtain ⟨_, ⟨rfl, rfl⟩, _, ⟨indent, rest, rfl, isIndent, rfl⟩, _, ⟨_, inside, rfl⟩, after⟩ := h
  obtain ⟨word, rest, rfl, wordFilled, isWord, rfl⟩ := exists_of_reaches_oneOrMore inside
  rw [capture_append] at after
  obtain ⟨_, inside, _, ⟨_, inside', rfl⟩, after⟩ := after
  obtain ⟨gap, rest, rfl, gapFilled, isGap, rfl⟩ := exists_of_reaches_oneOrMore inside
  obtain ⟨name, rest, rfl, nameFilled, -, rfl⟩ := exists_of_reaches_oneOrMore inside'
  rw [capture_append] at after
  obtain ⟨tail, rfl, isTail, groups⟩ := exists_of_reaches_closing after
  refine ⟨rfl, ⟨indent, word, gap, name, tail⟩, ?_, ?_, isIndent, wordFilled, isWord, gapFilled,
    isGap, nameFilled, isTail⟩
  · simp [Header.chars_eq]
  · rw [groups]
    simp [Header.captures, Header.lead]

/-- What is matched on a line are the parts of a header, or else the name is blank. -/
theorem exists_of_search {line : List Char} (unbroken : '\n' ∉ line) {captures : List Capture}
    (found : header.search line = some captures) :
    ∃ h : Header, h.chars = line ∧ h.captures = captures ∧ (h.WellFormed ∨ Blank h.name) := by
  obtain ⟨result, matched, rfl⟩ := Option.map_eq_some_iff.mp found
  obtain ⟨first, -, matched⟩ := List.exists_of_findSome?_eq_some matched
  obtain ⟨reached, reaches, ended⟩ := exists_reaches_of_run matched
  cases ended
  obtain ⟨atStart, h, parts, captures_eq, indent, wordFilled, word, gapFilled, gap, nameFilled,
    tail⟩ := exists_parts_of_reaches reaches
  have whole : h.chars = line := by
    have halves := List.take_append_drop first line
    rwa [atStart, List.nil_append, ← parts] at halves
  refine ⟨h, whole, captures_eq, ?_⟩
  by_cases blank : Blank h.name
  · exact .inr blank
  -- White space at the start of the name would be in the gap of a header, and that one is found.
  have inside : h.name.dropWhile isWhiteSpace ≠ [] :=
    fun dropped => blank (List.dropWhile_eq_nil_iff.mp dropped)
  obtain ⟨c, rest, name⟩ := List.exists_cons_of_ne_nil inside
  have solid : isWhiteSpace c = false := by
    have := List.head_dropWhile_not isWhiteSpace inside
    simpa [name] using this
  have split := List.takeWhile_append_dropWhile (p := isWhiteSpace) (l := h.name)
  let other : Header :=
    ⟨h.indent, h.word, h.gap ++ h.name.takeWhile isWhiteSpace, c :: rest, h.tail⟩
  have wellFormed : other.WellFormed :=
    ⟨indent, wordFilled, word, by simp [other, gapFilled],
      blank_append.mpr ⟨gap, blank_takeWhile h.name⟩, ⟨c, rest, rfl, solid⟩, tail⟩
  have same : other.chars = line := by
    rw [← whole, Header.chars_eq, Header.chars_eq, ← split, name]
    simp [other]
  have whole_name : '\n' ∉ other.name := by
    intro member
    apply unbroken
    rw [← same, Header.chars_eq]
    simp [member]
  have again := search_chars wellFormed whole_name
  rw [same, found, ← captures_eq] at again
  obtain ⟨-, names⟩ : h.lead = other.lead ∧ h.name = c :: rest := by
    simpa [Header.captures, other] using again
  exact .inl ⟨indent, wordFilled, word, gapFilled, gap, ⟨c, rest, names, solid⟩, tail⟩

example : header.search "model   :".toList =
    some [⟨[], "model".toList⟩, ⟨"model  ".toList, " ".toList⟩] := by decide +kernel

end Pattern

/-! ## Diagnostics -/

namespace Diagnostic

/-- The diagnostic that a match on a line gives. The name is found by the bytes before it. -/
def ofMatch? (number : Nat) (line : List Char) : List Capture → Option Diagnostic
  | [word, name] =>
    if Keyword.isDeclaration (String.ofList word.text) && (trimEnd name.text).contains ' '
        && name.text.head? != some '"' then
      let start := Utf16.columnOfByte line (Utf16.byteSize name.before)
      some
        { severity := .warning
          range := ⟨.ofNat number start, .ofNat number (start + Utf16.width name.text)⟩
          message := multiWordMessage (String.ofList word.text) (String.ofList name.text)
          rule := some .multiWordName }
    else none
  | _ => none

theorem ofMatch?_captures (number : Nat) (header : Header) :
    ofMatch? number header.chars header.captures =
      if isMultiWord header then some (ofHeader number header) else none := by
  have column : Utf16.columnOfByte header.chars (Utf16.byteSize header.lead) =
      Utf16.width header.lead := by
    rw [Header.chars, List.append_assoc]
    exact Utf16.columnOfByte_byteSize _ _
  simp only [ofMatch?, Header.captures, column]
  rfl

/-- A line is judged by its header as by what is matched on it. -/
theorem ofLine?_eq_ofMatch? (number : Nat) {line : List Char} (unbroken : '\n' ∉ line) :
    ofLine? number line = (Pattern.header.search line).bind (ofMatch? number line) := by
  cases read : Header.ofLine? line with
  | some header =>
    obtain ⟨wellFormed, rfl⟩ := Header.ofLine?_eq_some_iff.mp read
    have whole : '\n' ∉ header.name := by
      intro member
      apply unbroken
      rw [Header.chars_eq]
      simp [member]
    rw [ofLine?, read, Pattern.search_chars wellFormed whole, Option.bind_some,
      ofMatch?_captures, Option.filter_some]
    split <;> rfl
  | none =>
    rw [ofLine?, read]
    cases found : Pattern.header.search line with
    | none => rfl
    | some captures =>
      obtain ⟨header, rfl, rfl, shape⟩ := Pattern.exists_of_search unbroken found
      have single : isMultiWord header = false := by
        rcases shape with wellFormed | blank
        · cases read.symm.trans (Header.ofLine?_chars wellFormed)
        · simp [isMultiWord, trimEnd_of_blank blank]
      rw [Option.bind_some, ofMatch?_captures, single]
      rfl

/-- A line has a diagnostic if it is a header with an unquoted name, which it is in one way at most.
The diagnostic marks the name of this header on the line, and quotes it together with the keyword.
The first match of the pattern, as a backtracking matcher finds it, gives no other diagnostic. -/
theorem diagnostics_of_headers (number : Nat) (line : List Char) (unbroken : Unbroken line) :
    ((ofLine? number line).isSome ↔ ∃ header : Header, header.Unquoted ∧ header.chars = line) ∧
    (∀ header : Header, header.Unquoted → header.chars = line →
      (∀ other : Header, other.Unquoted → other.chars = line → other = header) ∧
      ∃ diagnostic, ofLine? number line = some diagnostic ∧
        let start := Utf16.width (header.indent ++ header.word ++ header.gap)
        let stop := start + Utf16.width header.name
        diagnostic.severity = .warning ∧
        diagnostic.range = ⟨.ofNat number start, .ofNat number stop⟩ ∧
        (Utf16.width line < UInt32.size →
          diagnostic.range.start.character.toNat = start ∧
          diagnostic.range.stop.character.toNat = stop) ∧
        diagnostic.message = "Multi-word `" ++ String.ofList header.word ++
          "` names should be quoted: `" ++ String.ofList header.name ++ "`") ∧
    ofLine? number line = (Pattern.header.search line).bind (ofMatch? number line) := by
  have whole : '\n' ∉ line := fun member => unbroken '\n' member (.inr rfl)
  refine ⟨?_, ?_, ofLine?_eq_ofMatch? number whole⟩
  · rw [Option.isSome_iff_exists]
    constructor
    · rintro ⟨diagnostic, found⟩
      obtain ⟨header, unquoted, parts, -⟩ := ofLine?_eq_some_iff.mp found
      exact ⟨header, unquoted, parts⟩
    · rintro ⟨header, unquoted, parts⟩
      exact ⟨_, ofLine?_eq_some_iff.mpr ⟨header, unquoted, parts, rfl⟩⟩
  · rintro header unquoted rfl
    refine ⟨?_, ofHeader number header, ofLine?_eq_some_iff.mpr ⟨header, unquoted, rfl, rfl⟩, rfl,
      rfl, ?_, rfl⟩
    · intro other unquoted' same
      have wellFormed := (Header.unquoted_iff.mp unquoted).1
      have wellFormed' := (Header.unquoted_iff.mp unquoted').1
      exact wellFormed'.eq_of_chars wellFormed same
    · intro short
      simp only [Header.chars, Utf16.width_append, Utf16.width_cons] at short
      constructor
      · exact Text.character_ofNat (by omega) number
      · exact Text.character_ofNat (by omega) number

theorem diagnostics_of_headers_colons :
    let line := "  page 👋 a: B :\t".toList
    Unbroken line ∧ ∃ diagnostic, ofLine? 3 line = some diagnostic ∧
      diagnostic.range = ⟨⟨3, 7⟩, ⟨3, 15⟩⟩ ∧
      diagnostic.message = "Multi-word `page` names should be quoted: `👋 a: B `" := by
  intro line
  have unbroken : Unbroken line := by simp [Unbroken, IsBreak, line]
  let header : Header :=
    ⟨"  ".toList, "page".toList, " ".toList, "👋 a: B ".toList, "\t".toList⟩
  have unquoted : header.Unquoted :=
    ⟨by decide, by decide, by decide, by decide, ⟨'👋', " a: B ".toList, by decide, by decide,
      by decide⟩, ⟨['👋'], "a: B ".toList, by decide, by decide⟩, by decide⟩
  obtain ⟨-, diagnostic, found, -, range, -, message⟩ :=
    (diagnostics_of_headers 3 line unbroken).2.1 header unquoted (by decide)
  exact ⟨unbroken, diagnostic, found, range, message⟩

end Diagnostic

end LanguageServer
