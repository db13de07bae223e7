import LanguageServer.Proofs.Utf8
import LanguageServer.Proofs.WhiteSpace
/-!
# Header blocks

A header block by its lines (`Block`), told without the reader. The reader takes exactly such a
block and leaves what follows it (`readBlock_bytes`); and what it takes whatever follows is such a
block (`accepts_iff`).
-/

namespace LanguageServer

/-! ## Line breaks at the end -/

namespace Frame

abbrev IsBreak (c : Char) : Prop := c = '\r' ∨ c = '\n'

theorem IsBreak.isWhiteSpace {c : Char} (h : IsBreak c) : Unicode.isWhiteSpace c = true := by
  rcases h with rfl | rfl <;> decide

theorem IsBreak.ne_colon {c : Char} (h : IsBreak c) : c ≠ ':' := by
  rcases h with rfl | rfl <;> decide

theorem trimBreaks_append_breaks (line : List Char) {breaks : List Char}
    (h : ∀ c ∈ breaks, IsBreak c) : trimBreaks (line ++ breaks) = trimBreaks line := by
  have reversed : ∀ c ∈ breaks.reverse, decide (c = '\r' ∨ c = '\n') = true :=
    fun c member => decide_eq_true (h c (List.mem_reverse.mp member))
  rw [trimBreaks, List.reverse_append, List.dropWhile_append_of_pos reversed, trimBreaks]

/-- Nothing but line breaks is dropped. -/
theorem exists_breaks (line : List Char) :
    ∃ breaks, line = trimBreaks line ++ breaks ∧ ∀ c ∈ breaks, IsBreak c := by
  refine ⟨(line.reverse.takeWhile fun c => c = '\r' ∨ c = '\n').reverse, ?_, ?_⟩
  · rw [trimBreaks, ← List.reverse_append, List.takeWhile_append_dropWhile, List.reverse_reverse]
  · intro c member
    have passed := List.mem_takeWhile_imp (List.mem_reverse.mp member)
    exact of_decide_eq_true passed

theorem trimBreaks_eq_nil_iff {line : List Char} :
    trimBreaks line = [] ↔ ∀ c ∈ line, IsBreak c := by
  constructor
  · intro empty
    obtain ⟨breaks, parts, all⟩ := exists_breaks line
    rw [empty, List.nil_append] at parts
    exact parts ▸ all
  · intro all
    exact trimBreaks_append_breaks [] all

/-- On a line without line feeds only carriage returns are dropped. -/
theorem trimBreaks_ne_nil_iff {line : List Char} (unbroken : '\n' ∉ line) :
    trimBreaks line ≠ [] ↔ ∃ c ∈ line, c ≠ '\r' := by
  rw [Ne, trimBreaks_eq_nil_iff]
  constructor
  · intro kept
    obtain ⟨c, member, other⟩ : ∃ c ∈ line, ¬ IsBreak c := by simpa using kept
    exact ⟨c, member, fun same => other (.inl same)⟩
  · rintro ⟨c, member, other⟩ all
    rcases all c member with same | same
    · exact other same
    · exact unbroken (same ▸ member)

theorem trimBreaks_append_lineFeed (line : List Char) :
    trimBreaks (line ++ ['\n']) = trimBreaks line :=
  trimBreaks_append_breaks line fun _ member => .inr (List.mem_singleton.mp member)

/-- Line breaks at the end of a header line make no difference to what it announces. -/
theorem announced?_append_breaks (line : List Char) {breaks : List Char}
    (h : ∀ c ∈ breaks, IsBreak c) : announced? (line ++ breaks) = announced? line := by
  have uncolored : ∀ c ∈ breaks, (c != ':') = true := fun c member => by
    simpa using (h c member).ne_colon
  have dropped : breaks.dropWhile (· != ':') = [] :=
    List.dropWhile_eq_nil_iff.mpr uncolored
  have blank : ∀ c ∈ breaks, Unicode.isWhiteSpace c = true :=
    fun c member => (h c member).isWhiteSpace
  unfold announced?
  rw [List.dropWhile_append]
  cases found : line.dropWhile (· != ':') with
  | nil => rw [List.isEmpty_nil, if_pos rfl, dropped]
  | cons colon value =>
    have name : (line ++ breaks).takeWhile (· != ':') = line.takeWhile (· != ':') := by
      rw [List.takeWhile_append, if_neg]
      intro whole
      have lengths := congrArg List.length
        (List.takeWhile_append_dropWhile (p := (· != ':')) (l := line))
      rw [found, List.length_append, whole, List.length_cons] at lengths
      omega
    simp [name, Unicode.trim_append_blanks value blank]

theorem announced?_append_lineFeed (line : List Char) :
    announced? (line ++ ['\n']) = announced? line :=
  announced?_append_breaks line fun _ member => .inr (List.mem_singleton.mp member)

theorem announced?_trimBreaks (line : List Char) :
    announced? (trimBreaks line) = announced? line := by
  obtain ⟨breaks, parts, all⟩ := exists_breaks line
  exact (announced?_append_breaks (trimBreaks line) all).symm.trans
    (congrArg announced? parts.symm)

/-! ## Lines -/

theorem ne_lineFeed_of_notMem {bytes : List UInt8} (h : lineFeed ∉ bytes) :
    ∀ byte ∈ bytes, (byte != lineFeed) = true := by
  intro byte member
  exact bne_iff_ne.mpr fun same => h (same ▸ member)

theorem readLine_append {line : List UInt8} (h : lineFeed ∉ line) (rest : List UInt8) :
    readLine (line ++ lineFeed :: rest) = (line ++ [lineFeed], rest) := by
  have others := ne_lineFeed_of_notMem h
  unfold readLine
  rw [List.dropWhile_append_of_pos others, List.takeWhile_append_of_pos others]
  simp

/-- Without a line feed all that is left is the line. -/
theorem readLine_of_notMem {input : List UInt8} (h : lineFeed ∉ input) :
    readLine input = (input, []) := by
  have dropped : input.dropWhile (· != lineFeed) = [] :=
    List.dropWhile_eq_nil_iff.mpr (ne_lineFeed_of_notMem h)
  unfold readLine
  rw [dropped]

/-- A line before something else ends with a line feed. -/
theorem lineFeed_mem_of_readLine {input : List UInt8} (h : (readLine input).2 ≠ []) :
    lineFeed ∈ input := by
  by_contra absent
  rw [readLine_of_notMem absent] at h
  exact h rfl

theorem exists_line_of_readLine {input : List UInt8} (h : lineFeed ∈ input) :
    ∃ line, lineFeed ∉ line ∧ input = line ++ lineFeed :: (readLine input).2 ∧
      (readLine input).1 = line ++ [lineFeed] := by
  obtain ⟨line, rest, rfl, absent⟩ := List.eq_append_cons_of_mem h
  exact ⟨line, absent, by rw [readLine_append absent], by rw [readLine_append absent]⟩

/-- Bytes of one line, if they encode characters at all, encode those of one line. -/
theorem exists_front_of_readLine {input : List UInt8} (ended : lineFeed ∈ input)
    {chars : List Char} (encoded : (readLine input).1 = Utf8.encode chars) :
    ∃ front, chars = front ++ ['\n'] ∧ '\n' ∉ front := by
  obtain ⟨line, absent, -, read⟩ := exists_line_of_readLine ended
  have ends : Utf8.encode chars = line ++ [lineFeed] := encoded.symm.trans read
  have member : '\n' ∈ chars := Utf8.lineFeed_mem_encode.mp (ends ▸ by simp)
  obtain ⟨front, back, rfl, first⟩ := List.eq_append_cons_of_mem member
  have shape : Utf8.encode (front ++ '\n' :: back) =
      Utf8.encode front ++ lineFeed :: Utf8.encode back := Utf8.encode_append _ _
  -- both ways the line ends at its first line feed
  have one := readLine_append (mt Utf8.lineFeed_mem_encode.mp first) (Utf8.encode back)
  have other := readLine_append absent []
  rw [← shape, ends, other] at one
  have nothing : Utf8.encode back = [] := (congrArg Prod.snd one).symm
  by_cases empty : back = []
  · exact ⟨front, by rw [empty], first⟩
  · exact absurd nothing (Utf8.encode_ne_nil empty)

theorem readLine_parts {input : List UInt8} (ended : lineFeed ∈ input) :
    input = (readLine input).1 ++ (readLine input).2 := by
  obtain ⟨line, -, parts, read⟩ := exists_line_of_readLine ended
  rw [read, List.append_assoc, List.singleton_append]
  exact parts

/-! ## Blocks -/

/-- A header block: lines that are not empty, and an empty one at the end. A line of carriage
returns is empty. -/
structure Block where
  lines : List (List Char)
  /-- How many carriage returns the empty line has. -/
  returns : Nat
  unbroken : ∀ line ∈ lines, '\n' ∉ line
  filled : ∀ line ∈ lines, ∃ c ∈ line, c ≠ '\r'

/-- The length that the last of the lines that announce one announces, and `length` if none does. -/
def announcedBy (length : Option Nat) (lines : List (List Char)) : Option Nat :=
  (lines.filterMap announced?).getLast?.getD length

namespace Block

def chars (block : Block) : List Char :=
  block.lines.flatMap (· ++ ['\n']) ++ (List.replicate block.returns '\r' ++ ['\n'])

def bytes (block : Block) : List UInt8 := Utf8.encode block.chars

/-- The length of the body that a block announces, if it announces one. -/
def length? (block : Block) : Option Nat := announcedBy none block.lines

end Block

theorem encode_lines_cons (line : List Char) (lines : List (List Char)) (last : List Char) :
    Utf8.encode ((line :: lines).flatMap (· ++ ['\n']) ++ last) =
      Utf8.encode (line ++ ['\n']) ++ Utf8.encode (lines.flatMap (· ++ ['\n']) ++ last) := by
  rw [List.flatMap_cons, List.append_assoc, Utf8.encode_append]

theorem announcedBy_cons (length : Option Nat) (line : List Char) (rest : List (List Char)) :
    announcedBy length (line :: rest) = announcedBy ((announced? line).getD length) rest := by
  unfold announcedBy
  cases h : announced? line with
  | none => rw [List.filterMap_cons_none h, Option.getD_none]
  | some value => rw [List.filterMap_cons_some h, List.getLast?_cons, Option.getD_some,
      Option.getD_some]

theorem blockStep_of_kept (length : Option Nat) {chars : List Char} (kept : trimBreaks chars ≠ []) :
    blockStep length (Utf8.encode chars) = .more ((announced? chars).getD length) := by
  unfold blockStep
  rw [Utf8.decode?_encode, ← announced?_trimBreaks chars]
  obtain ⟨c, rest, shape⟩ := List.exists_cons_of_ne_nil kept
  simp only [shape]

theorem blockStep_of_blank (length : Option Nat) {chars : List Char}
    (blank : trimBreaks chars = []) :
    blockStep length (Utf8.encode chars) = .complete length := by
  unfold blockStep
  rw [Utf8.decode?_encode]
  simp only [blank]

theorem blockStep_line (length : Option Nat) {line : List Char} (filled : ∃ c ∈ line, c ≠ '\r')
    (unbroken : '\n' ∉ line) :
    blockStep length (Utf8.encode (line ++ ['\n'])) = .more ((announced? line).getD length) := by
  have kept := (trimBreaks_ne_nil_iff unbroken).mpr filled
  rw [← trimBreaks_append_lineFeed] at kept
  rw [blockStep_of_kept length kept, announced?_append_lineFeed]

theorem blockStep_blank (length : Option Nat) (returns : Nat) :
    blockStep length (Utf8.encode (List.replicate returns '\r' ++ ['\n'])) = .complete length := by
  apply blockStep_of_blank
  apply trimBreaks_eq_nil_iff.mpr
  intro c member
  rcases List.mem_append.mp member with inside | last
  · exact .inl (List.eq_of_mem_replicate inside)
  · exact .inr (List.mem_singleton.mp last)

theorem exists_of_blockStep_eq_more {length next : Option Nat} {line : List UInt8}
    (h : blockStep length line = .more next) :
    ∃ chars, line = Utf8.encode chars ∧ trimBreaks chars ≠ [] ∧
      next = (announced? chars).getD length := by
  unfold blockStep at h
  split at h
  · cases h
  · rename_i chars decoded
    split at h
    · cases h
    · rename_i kept
      cases h
      exact ⟨chars, Utf8.decode?_eq_some_iff.mp decoded, kept, by rw [announced?_trimBreaks]⟩

theorem exists_of_blockStep_eq_complete {length announced : Option Nat} {line : List UInt8}
    (h : blockStep length line = .complete announced) :
    announced = length ∧ ∃ chars, line = Utf8.encode chars ∧ trimBreaks chars = [] := by
  unfold blockStep at h
  split at h
  · cases h
  · rename_i chars decoded
    split at h
    · rename_i blank
      cases h
      exact ⟨rfl, chars, Utf8.decode?_eq_some_iff.mp decoded, blank⟩
    · cases h

theorem readLine_encode {line : List Char} (unbroken : '\n' ∉ line) (rest : List UInt8) :
    readLine (Utf8.encode (line ++ ['\n']) ++ rest) = (Utf8.encode (line ++ ['\n']), rest) := by
  rw [Utf8.encode_append, Utf8.encode_lineFeed, List.append_assoc, List.singleton_append]
  exact readLine_append (mt Utf8.lineFeed_mem_encode.mp unbroken) rest

/-- The reader goes on behind a line that is not empty. -/
theorem readBlock_line (length : Option Nat) {line : List Char} (unbroken : '\n' ∉ line)
    (filled : ∃ c ∈ line, c ≠ '\r') (rest : List UInt8) :
    readBlock length (Utf8.encode (line ++ ['\n']) ++ rest) =
      readBlock ((announced? line).getD length) rest := by
  rw [readBlock, dif_neg (by simp), readLine_encode unbroken, blockStep_line length filled unbroken]

/-- An empty line ends a block. -/
theorem readBlock_blank (length : Option Nat) (returns : Nat) (rest : List UInt8) :
    readBlock length (Utf8.encode (List.replicate returns '\r' ++ ['\n']) ++ rest) =
      (.complete length, rest) := by
  have alone : '\n' ∉ List.replicate returns '\r' := by simp
  rw [readBlock, dif_neg (by simp), readLine_encode alone, blockStep_blank]

/-- The reader takes a block, after lines that announced `length`, and nothing behind it. -/
theorem readBlock_lines (length : Option Nat) {lines : List (List Char)} (returns : Nat)
    (unbroken : ∀ line ∈ lines, '\n' ∉ line) (filled : ∀ line ∈ lines, ∃ c ∈ line, c ≠ '\r')
    (rest : List UInt8) :
    readBlock length (Utf8.encode (lines.flatMap (· ++ ['\n']) ++
        (List.replicate returns '\r' ++ ['\n'])) ++ rest) =
      (.complete (announcedBy length lines), rest) := by
  induction lines generalizing length with
  | nil =>
    rw [List.flatMap_nil, List.nil_append, readBlock_blank]
    rfl
  | cons line others ih =>
    have first := readBlock_line length (unbroken line List.mem_cons_self)
      (filled line List.mem_cons_self)
    have tail := ih ((announced? line).getD length)
      (fun other member => unbroken other (List.mem_cons_of_mem _ member))
      (fun other member => filled other (List.mem_cons_of_mem _ member))
    rw [encode_lines_cons, List.append_assoc, first, announcedBy_cons]
    exact tail

/-- The reader takes a block and nothing behind it. -/
theorem readBlock_bytes (block : Block) (rest : List UInt8) :
    readBlock none (block.bytes ++ rest) = (.complete block.length?, rest) :=
  readBlock_lines none block.returns block.unbroken block.filled rest

/-- What the reader takes before something else is a block. -/
theorem exists_block_of_readBlock {length announced : Option Nat} {input rest : List UInt8}
    (h : readBlock length input = (.complete announced, rest)) (more : rest ≠ []) :
    ∃ block : Block, input = block.bytes ++ rest ∧
      announced = announcedBy length block.lines := by
  fun_induction readBlock length input with
  | case1 => cases h
  | case2 length input _ next step ih =>
    obtain ⟨block, follows, announces⟩ := ih h
    have left : (readLine input).2 ≠ [] := by
      rw [follows]
      exact List.append_ne_nil_of_right_ne_nil _ more
    have ended := lineFeed_mem_of_readLine left
    obtain ⟨chars, encoded, kept, rfl⟩ := exists_of_blockStep_eq_more step
    obtain ⟨front, rfl, unbroken⟩ := exists_front_of_readLine ended encoded
    rw [trimBreaks_append_lineFeed] at kept
    have filled := (trimBreaks_ne_nil_iff unbroken).mp kept
    have allUnbroken : ∀ line ∈ front :: block.lines, '\n' ∉ line :=
      List.forall_mem_cons.mpr ⟨unbroken, block.unbroken⟩
    have allFilled : ∀ line ∈ front :: block.lines, ∃ c ∈ line, c ≠ '\r' :=
      List.forall_mem_cons.mpr ⟨filled, block.filled⟩
    refine ⟨⟨front :: block.lines, block.returns, allUnbroken, allFilled⟩, ?_, ?_⟩
    · rw [Block.bytes, Block.chars, encode_lines_cons, List.append_assoc, ← encoded]
      exact follows ▸ readLine_parts ended
    · rw [announces, announced?_append_lineFeed, announcedBy_cons]
  | case3 length input _ announced' step =>
    cases h
    have ended := lineFeed_mem_of_readLine more
    obtain ⟨rfl, chars, encoded, blank⟩ := exists_of_blockStep_eq_complete step
    obtain ⟨front, rfl, unbroken⟩ := exists_front_of_readLine ended encoded
    rw [trimBreaks_append_lineFeed] at blank
    have returns : front = List.replicate front.length '\r' := by
      refine List.eq_replicate_iff.mpr ⟨rfl, fun c member => ?_⟩
      rcases trimBreaks_eq_nil_iff.mp blank c member with same | same
      · exact same
      · exact absurd (same ▸ member) unbroken
    refine ⟨⟨[], front.length, by simp, by simp⟩, ?_, rfl⟩
    have parts := readLine_parts ended
    rw [encoded, returns] at parts
    exact parts
  | case4 => cases h

/-- The header blocks are just what the reader takes whatever follows. -/
theorem accepts_iff {bytes : List UInt8} {length : Option Nat} :
    (∀ rest, readBlock none (bytes ++ rest) = (.complete length, rest)) ↔
      ∃ block : Block, block.bytes = bytes ∧ block.length? = length := by
  constructor
  · intro accepts
    obtain ⟨block, same, announced⟩ := exists_block_of_readBlock (accepts [0]) (by simp)
    exact ⟨block, (List.append_cancel_right same).symm, announced.symm⟩
  · rintro ⟨block, rfl, rfl⟩ rest
    exact readBlock_bytes block rest

end Frame

end LanguageServer
