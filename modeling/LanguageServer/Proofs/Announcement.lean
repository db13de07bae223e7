import Mathlib.Data.List.Forall2
import LanguageServer.Proofs.Truncation
/-!
# What a header block announces

The rule for header lines, told by what they look like: `Announces` for a line that announces a
length, `Spells` for the size that its value stands for. What is read behind a block follows from
the last of its lines that announces a length, and from nothing else in it (`read_of_block`).
-/

namespace LanguageServer

/-! ## Letters of either case -/

theorem toNat_toLower (c : Char) :
    c.toLower.toNat = if 65 ≤ c.toNat ∧ c.toNat ≤ 90 then c.toNat + 32 else c.toNat := by
  have upper : (c.val ≥ 'A'.val ∧ c.val ≤ 'Z'.val) ↔ 65 ≤ c.toNat ∧ c.toNat ≤ 90 := Iff.rfl
  unfold Char.toLower
  simp only [upper]
  split
  · rename_i inside
    have bound : c.val.toNat ≤ 90 := inside.2
    show (c.val + 32).toNat = c.val.toNat + 32
    rw [UInt32.toNat_add]
    exact Nat.mod_eq_of_lt (by simp; omega)
  · rfl

theorem toNat_toUpper (c : Char) :
    c.toUpper.toNat = if 97 ≤ c.toNat ∧ c.toNat ≤ 122 then c.toNat - 32 else c.toNat := by
  have lower : ('a'.val ≤ c.val ∧ c.val ≤ 'z'.val) ↔ 97 ≤ c.toNat ∧ c.toNat ≤ 122 := Iff.rfl
  unfold Char.toUpper
  simp only [lower]
  split
  · rename_i inside
    have low : 97 ≤ c.val.toNat := inside.1
    have high : c.val.toNat ≤ 122 := inside.2
    -- subtracting 32 is adding 2³² - 32
    show (c.val + 4294967264).toNat = c.val.toNat - 32
    rw [UInt32.toNat_add]
    simp
    omega
  · rfl

theorem toLower_eq_toLower_iff {c d : Char} :
    c.toLower = d.toLower ↔ c = d.toLower ∨ c = d.toUpper := by
  simp only [← Char.toNat_inj, toNat_toLower, toNat_toUpper]
  split <;> split <;> split <;> omega

namespace Frame

/-! ## The rule for lines -/

open Unicode (Blank)

/-- The name of the header field that announces the length of the body. -/
def lengthName : List Char := "Content-Length".toList

/-- The name that announces a length, each letter in either case, perhaps within white space. -/
def Names (name : List Char) : Prop :=
  ∃ left core right, name = left ++ core ++ right ∧ Blank left ∧ Blank right ∧
    List.Forall₂ (fun c letter => c = letter.toLower ∨ c = letter.toUpper) core lengthName

/-- A header line that announces a length: that name, the first colon of the line, and a value. -/
def Announces (line value : List Char) : Prop :=
  ∃ name, line = name ++ ':' :: value ∧ ':' ∉ name ∧ Names name

/-- A header line that announces no length. -/
def Silent (line : List Char) : Prop := ∀ value, ¬Announces line value

/-- A value that stands for a size below 2⁶⁴: its decimal digits, perhaps behind a plus sign and
within white space. -/
def Spells (value : List Char) (n : Nat) : Prop :=
  ∃ left sign digits right, value = left ++ (sign ++ digits) ++ right ∧ Blank left ∧ Blank right ∧
    (sign = [] ∨ sign = ['+']) ∧ digits ≠ [] ∧ (∀ d ∈ digits, '0' ≤ d ∧ d ≤ '9') ∧
    Nat.ofDigitChars 10 digits 0 = n ∧ n < 0x10000000000000000

/-- The last line of some header lines that announces a length. -/
def Decides (lines : List (List Char)) (line : List Char) : Prop :=
  (∃ value, Announces line value) ∧
    ∃ front back, lines = front ++ line :: back ∧ ∀ other ∈ back, Silent other

/-! ## The reader keeps the rule -/

/-- Letters of either case are no white space if they are none in both cases. -/
theorem solid_of_spelled {core letters : List Char}
    (spelled : List.Forall₂ (fun c letter => c = letter.toLower ∨ c = letter.toUpper) core letters)
    (solid : ∀ letter ∈ letters, Unicode.isWhiteSpace letter.toLower = false ∧
      Unicode.isWhiteSpace letter.toUpper = false) :
    ∀ c ∈ core, Unicode.isWhiteSpace c = false := by
  induction spelled with
  | nil => simp
  | cons either _ ih =>
    obtain ⟨first, others⟩ := List.forall_mem_cons.mp solid
    refine List.forall_mem_cons.mpr ⟨?_, ih others⟩
    rcases either with rfl | rfl
    · exact first.1
    · exact first.2

theorem isLengthName_iff {name : List Char} : isLengthName name = true ↔ Names name := by
  have same : ∀ core : List Char, core.map Char.toLower = "content-length".toList ↔
      List.Forall₂ (fun c letter => c = letter.toLower ∨ c = letter.toUpper) core lengthName := by
    intro core
    have lowered : "content-length".toList = lengthName.map Char.toLower := by decide
    rw [lowered, ← List.forall₂_eq_eq_eq, List.forall₂_map_left_iff, List.forall₂_map_right_iff]
    simp only [toLower_eq_toLower_iff]
  unfold isLengthName
  rw [decide_eq_true_eq, same]
  constructor
  · intro spelled
    obtain ⟨left, right, parts, before, behind⟩ := Unicode.exists_trim name
    exact ⟨left, Unicode.trim name, right, parts, before, behind, spelled⟩
  · rintro ⟨left, core, right, rfl, before, behind, spelled⟩
    have letters : lengthName.all (fun letter => !Unicode.isWhiteSpace letter.toLower &&
        !Unicode.isWhiteSpace letter.toUpper) = true := by decide
    have solid := solid_of_spelled spelled fun letter member => by
      simpa using List.all_eq_true.mp letters letter member
    rwa [Unicode.trim_of_solid before solid behind]

theorem size?_trim_eq_some_iff {value : List Char} {n : Nat} :
    size? (Unicode.trim value) = some n ↔ Spells value n := by
  rw [size?_eq_some_iff]
  constructor
  · rintro ⟨sign, digits, trimmed, signed, nonempty, all, denotes, bound⟩
    obtain ⟨left, right, parts, before, behind⟩ := Unicode.exists_trim value
    rw [trimmed] at parts
    have bounds : ∀ d ∈ digits, '0' ≤ d ∧ d ≤ '9' := fun d member => by
      simpa [Json.isDigit] using all d member
    exact ⟨left, sign, digits, right, parts, before, behind, signed, nonempty, bounds, denotes,
      bound⟩
  · rintro ⟨left, sign, digits, right, rfl, before, behind, signed, nonempty, bounds, denotes,
      bound⟩
    have all : ∀ d ∈ digits, Json.isDigit d = true := fun d member => by
      simpa [Json.isDigit] using bounds d member
    have solid : ∀ c ∈ sign ++ digits, Unicode.isWhiteSpace c = false := by
      intro c member
      rcases List.mem_append.mp member with inside | inside
      · rcases signed with rfl | rfl
        · cases inside
        · exact List.mem_singleton.mp inside ▸ by decide
      · exact Json.not_isWhiteSpace_of_isDigit (all c inside)
    exact ⟨sign, digits, Unicode.trim_of_solid before solid behind, signed, nonempty, all, denotes,
      bound⟩

theorem announced?_of_announces {line value : List Char} (h : Announces line value) :
    announced? line = some (size? (Unicode.trim value)) := by
  obtain ⟨name, rfl, uncolored, names⟩ := h
  rw [announced?_of_colon uncolored, if_pos (isLengthName_iff.mpr names)]

theorem announced?_of_silent {line : List Char} (h : Silent line) : announced? line = none := by
  by_cases colon : ':' ∈ line
  · obtain ⟨name, value, rfl, uncolored⟩ := List.eq_append_cons_of_mem colon
    have other : ¬isLengthName name = true :=
      fun named => h value ⟨name, rfl, uncolored, isLengthName_iff.mp named⟩
    rw [announced?_of_colon uncolored, if_neg other]
  · have dropped : line.dropWhile (· != ':') = [] := by
      refine List.dropWhile_eq_nil_iff.mpr fun c member => ?_
      exact bne_iff_ne.mpr fun same => colon (same ▸ member)
    unfold announced?
    rw [dropped]

/-! ## Blocks -/

theorem filterMap_of_silent {lines : List (List Char)} (silent : ∀ line ∈ lines, Silent line) :
    lines.filterMap announced? = [] :=
  List.filterMap_eq_nil_iff.mpr fun line member => announced?_of_silent (silent line member)

theorem announcedBy_of_silent {lines : List (List Char)} (silent : ∀ line ∈ lines, Silent line) :
    announcedBy none lines = none := by
  rw [announcedBy, filterMap_of_silent silent]
  rfl

/-- The last line that announces a length is the one that counts. -/
theorem announcedBy_of_decides {lines : List (List Char)} {line value : List Char}
    (decides : Decides lines line) (announces : Announces line value) :
    announcedBy none lines = size? (Unicode.trim value) := by
  obtain ⟨-, front, back, rfl, silent⟩ := decides
  rw [announcedBy, List.filterMap_append,
    List.filterMap_cons_some (announced?_of_announces announces), filterMap_of_silent silent]
  simp

theorem silent_or_exists_decides (lines : List (List Char)) :
    (∀ line ∈ lines, Silent line) ∨ ∃ line, Decides lines line := by
  induction lines with
  | nil => exact .inl (by simp)
  | cons first rest ih =>
    rcases ih with silent | ⟨line, announces, front, back, rfl, silent⟩
    · by_cases announces : ∃ value, Announces first value
      · exact .inr ⟨first, announces, [], rest, rfl, silent⟩
      · exact .inl (List.forall_mem_cons.mpr ⟨not_exists.mp announces, silent⟩)
    · exact .inr ⟨line, announces, first :: front, back, rfl, silent⟩

theorem mem_of_decides {lines : List (List Char)} {line : List Char} (h : Decides lines line) :
    line ∈ lines := by
  obtain ⟨-, front, back, rfl, -⟩ := h
  simp

/-- Of header lines no more than the last one that announces a length counts. -/
theorem announcedBy_congr {lines others : List (List Char)}
    (same : ∀ line, Decides lines line ↔ Decides others line) :
    announcedBy none lines = announcedBy none others := by
  rcases silent_or_exists_decides lines with silent | ⟨line, decides⟩
  · rcases silent_or_exists_decides others with silent' | ⟨line, decides⟩
    · rw [announcedBy_of_silent silent, announcedBy_of_silent silent']
    · obtain ⟨value, announces⟩ := decides.1
      exact absurd announces (silent line (mem_of_decides ((same line).mpr decides)) value)
  · obtain ⟨value, announces⟩ := decides.1
    rw [announcedBy_of_decides decides announces,
      announcedBy_of_decides ((same line).mp decides) announces]

theorem announcedBy_insert_silent (front : List (List Char)) {line : List Char}
    (silent : Silent line) (back : List (List Char)) :
    announcedBy none (front ++ line :: back) = announcedBy none (front ++ back) := by
  unfold announcedBy
  rw [List.filterMap_append, List.filterMap_cons_none (announced?_of_silent silent),
    List.filterMap_append]

/-- Carriage returns at the ends of lines do not count. -/
theorem announcedBy_of_returns {lines others : List (List Char)}
    (same : List.Forall₂ (fun line other => other = line ∨ other = line ++ ['\r']) lines others) :
    announcedBy none others = announcedBy none lines := by
  unfold announcedBy
  congr 2
  induction same with
  | nil => rfl
  | @cons line other lines others either _ ih =>
    have equal : announced? other = announced? line := by
      rcases either with rfl | rfl
      · rfl
      · exact announced?_append_breaks line fun c member => .inl (List.mem_singleton.mp member)
    rw [List.filterMap_cons, List.filterMap_cons, equal, ih]

/-! ## What is read -/

section

variable {block : Block} {n : Nat} {rest : List UInt8}

theorem read_of_unannounced (h : block.length? = none) :
    read (block.bytes ++ rest) = (.failed .missingLength, rest) := by
  unfold read
  rw [readBlock_bytes, h]

theorem read_of_large (h : block.length? = some n) (large : maxLength < n) :
    read (block.bytes ++ rest) = (.failed (.tooLarge n), rest) := by
  unfold read
  rw [readBlock_bytes, h]
  exact if_pos large

theorem read_of_body {body : List UInt8} (h : block.length? = some body.length)
    (fits : body.length ≤ maxLength) :
    read (block.bytes ++ (body ++ rest)) = (readBody body, rest) := by
  have whole := Frame.read_bytes ⟨block, body, h, fits⟩ rest
  rwa [Frame.bytes, List.append_assoc] at whole

theorem read_congr {other : Block} (h : other.length? = block.length?) :
    read (other.bytes ++ rest) = read (block.bytes ++ rest) := by
  unfold read
  rw [readBlock_bytes, readBlock_bytes, h]

end

/-- A body that carries a value, as text in UTF-8. -/
def Carries (body : List UInt8) (value : Json) : Prop :=
  ∃ chars, body = Utf8.encode chars ∧ Json.parse? chars = some value

theorem readBody_of_carries {body : List UInt8} {value : Json} (h : Carries body value) :
    readBody body = .message value := by
  obtain ⟨chars, rfl, parsed⟩ := h
  unfold readBody
  rw [Utf8.decode?_encode, Option.bind_some, parsed]

theorem readBody_of_not_carries {body : List UInt8} (h : ∀ value, ¬Carries body value) :
    readBody body = .failed .malformed := by
  unfold readBody
  cases parsed : (Utf8.decode? body).bind Json.parse? with
  | none => rfl
  | some value =>
    obtain ⟨chars, decoded, parsed⟩ := Option.bind_eq_some_iff.mp parsed
    exact absurd ⟨chars, Utf8.decode?_eq_some_iff.mp decoded, parsed⟩ (h value)

/-- What is read from a header block and the bytes behind it. If no line announces a length, or the
value of the last one that does spells no size, the length is missing, whatever the lines before
announce. If it spells too large a size, that is the answer. In both cases just the block is taken.
If it spells any other size and so many bytes follow, just these are taken as well, and the answer
is the value that they carry or that they carry none; if fewer follow, the message is truncated.
Other lines make no difference, nor do carriage returns at the ends of lines. -/
theorem read_of_block (block : Block) (rest : List UInt8) :
    let outcome := read (block.bytes ++ rest)
    ((∀ line ∈ block.lines, Silent line) → outcome = (.failed .missingLength, rest)) ∧
    (∀ line value, Decides block.lines line → Announces line value →
      ((∀ n, ¬Spells value n) → outcome = (.failed .missingLength, rest)) ∧
      ∀ n, Spells value n →
        (maxLength < n → outcome = (.failed (.tooLarge n), rest)) ∧
        (n ≤ maxLength → rest.length < n → outcome.1 = .failed .truncated) ∧
        ∀ body behind, n ≤ maxLength → rest = body ++ behind → body.length = n →
          outcome.2 = behind ∧ (∀ json, Carries body json → outcome.1 = .message json) ∧
            ((∀ json, ¬Carries body json) → outcome.1 = .failed .malformed)) ∧
    (∀ other : Block, (∀ line, Decides other.lines line ↔ Decides block.lines line) →
      read (other.bytes ++ rest) = outcome) ∧
    (∀ (other : Block) (front back : List (List Char)) (line : List Char), Silent line →
      block.lines = front ++ back → other.lines = front ++ line :: back →
      read (other.bytes ++ rest) = outcome) ∧
    ∀ other : Block,
      List.Forall₂ (fun line other => other = line ∨ other = line ++ ['\r'])
        block.lines other.lines →
      read (other.bytes ++ rest) = outcome := by
  intro outcome
  refine ⟨?_, ?_, ?_, ?_, ?_⟩
  · intro silent
    exact read_of_unannounced (announcedBy_of_silent silent)
  · intro line value decides announces
    have length : block.length? = size? (Unicode.trim value) :=
      announcedBy_of_decides decides announces
    constructor
    · intro unspelled
      have none : size? (Unicode.trim value) = none :=
        Option.eq_none_iff_forall_ne_some.mpr fun n found =>
          unspelled n (size?_trim_eq_some_iff.mp found)
      exact read_of_unannounced (length.trans none)
    · intro n spells
      have announced : block.length? = some n := length.trans (size?_trim_eq_some_iff.mpr spells)
      refine ⟨read_of_large announced, ?_, ?_⟩
      · intro fits short
        have taken := readBlock_bytes block rest
        rw [announced] at taken
        exact congrArg Prod.fst (read_of_short taken fits short)
      · rintro body behind fits rfl rfl
        have whole : outcome = (readBody body, behind) := read_of_body announced fits
        rw [whole]
        exact ⟨rfl, fun _ => readBody_of_carries, readBody_of_not_carries⟩
  · intro other same
    exact read_congr (announcedBy_congr same)
  · intro other front back line silent without within
    have same : announcedBy none other.lines = announcedBy none block.lines := by
      rw [without, within, announcedBy_insert_silent front silent]
    exact read_congr same
  · intro other same
    exact read_congr (announcedBy_of_returns same)

/-- A block that announces a length twice, and something else. -/
def twiceBlock : Block where
  lines := ["Content-Length: 9".toList, "\tcontent-LENGTH :  +002 \r".toList, "X: 1:2".toList]
  returns := 2
  unbroken := by decide
  filled := by simp

theorem announces_twiceBlock :
    Announces "\tcontent-LENGTH :  +002 \r".toList "  +002 \r".toList :=
  ⟨"\tcontent-LENGTH ".toList, by decide, by decide, ['\t'], "content-LENGTH".toList, [' '],
    by decide, by decide, by decide, by decide⟩

theorem decides_twiceBlock :
    Decides twiceBlock.lines "\tcontent-LENGTH :  +002 \r".toList := by
  refine ⟨⟨_, announces_twiceBlock⟩, ["Content-Length: 9".toList], ["X: 1:2".toList], rfl, ?_⟩
  intro other member value announces
  have nothing : announced? "X: 1:2".toList = none := by decide
  rw [List.mem_singleton.mp member] at announces
  cases (announced?_of_announces announces).symm.trans nothing

theorem spells_twiceBlock : Spells "  +002 \r".toList 2 :=
  ⟨[' ', ' '], ['+'], ['0', '0', '2'], [' ', '\r'], by decide, by decide, by decide, .inr rfl,
    by decide, by simp, by decide, by decide⟩

theorem carries_emptyArray : Carries (Utf8.encode ['[', ']']) (.arr []) := by
  refine ⟨['[', ']'], rfl, ?_⟩
  iterate 2 refine (Json.Reader.run_of_next? rfl rfl).trans ?_
  exact Json.Reader.run_nil _ _

/-- The second length counts, and the byte behind the body stays unread. -/
theorem read_of_block_twice :
    Decides twiceBlock.lines "\tcontent-LENGTH :  +002 \r".toList ∧ Spells "  +002 \r".toList 2 ∧
      read (twiceBlock.bytes ++ (Utf8.encode ['[', ']'] ++ [120])) =
        (.message (.arr []), [120]) := by
  obtain ⟨-, decided, -⟩ := read_of_block twiceBlock (Utf8.encode ['[', ']'] ++ [120])
  obtain ⟨-, spelled⟩ := decided _ _ decides_twiceBlock announces_twiceBlock
  obtain ⟨-, -, whole⟩ := spelled 2 spells_twiceBlock
  obtain ⟨unread, carried, -⟩ := whole _ [120] (by decide) rfl rfl
  exact ⟨decides_twiceBlock, spells_twiceBlock,
    Prod.ext (carried _ carries_emptyArray) unread⟩

end Frame

end LanguageServer
