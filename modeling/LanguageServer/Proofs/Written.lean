import LanguageServer.Proofs.Decimal
import LanguageServer.Proofs.Stream
/-!
# Frames as they are written

What is written for a value is a frame with one header line (`ofValue`). So values that are written
one after another are read one after another, up to the byte behind the last one
(`readMany_write`).
-/

namespace LanguageServer

namespace Frame

/-! ## The header -/

/-- The header line that announces a length. The line feed behind it ends the line. -/
def lengthLine (length : Nat) : List Char :=
  "Content-Length: ".toList ++ Json.decimal length ++ ['\r']

/-- What a line announces whose name ends at its first colon. -/
theorem announced?_of_colon {name : List Char} (uncolored : ':' ∉ name) (value : List Char) :
    announced? (name ++ ':' :: value) =
      if isLengthName name then some (size? (Unicode.trim value)) else none := by
  have others : ∀ c ∈ name, (c != ':') = true := fun c member => by
    simpa using fun same : c = ':' => uncolored (same ▸ member)
  unfold announced?
  rw [List.dropWhile_append_of_pos others, List.takeWhile_append_of_pos others]
  simp

theorem trim_decimal (n : Nat) : Unicode.trim (' ' :: Json.decimal n) = Json.decimal n := by
  have solid : ∀ c ∈ Json.decimal n, Unicode.isWhiteSpace c = false :=
    fun c member => Json.not_isWhiteSpace_of_isDigit (Json.isDigit_of_mem_decimal member)
  have space : Unicode.Blank [' '] := List.forall_mem_singleton.mpr (by decide)
  have trimmed := Unicode.trim_of_solid space solid (fun _ => List.not_mem_nil.elim)
  rwa [List.append_nil] at trimmed

theorem announced?_lengthLine {length : Nat} (h : length < 0x10000000000000000) :
    announced? (lengthLine length) = some (some length) := by
  have shape : lengthLine length =
      ("Content-Length".toList ++ ':' :: ' ' :: Json.decimal length) ++ ['\r'] := by
    have name : "Content-Length: ".toList = "Content-Length".toList ++ [':', ' '] := by decide
    unfold lengthLine
    rw [name, List.append_assoc, List.append_assoc]
    rfl
  have uncolored : ':' ∉ "Content-Length".toList := by decide
  have named : isLengthName "Content-Length".toList = true := by decide
  have breaks : ∀ c ∈ ['\r'], IsBreak c := fun c member => .inl (List.mem_singleton.mp member)
  rw [shape, announced?_append_breaks _ breaks, announced?_of_colon uncolored, if_pos named,
    trim_decimal, size?_decimal h]

theorem lineFeed_notMem_lengthLine (length : Nat) : '\n' ∉ lengthLine length := by
  have name : '\n' ∉ "Content-Length: ".toList := by decide
  have digits : '\n' ∉ Json.decimal length := fun member =>
    absurd (Json.isDigit_of_mem_decimal member) (by decide)
  have ending : '\n' ∉ ['\r'] := by decide
  unfold lengthLine
  rw [List.mem_append, List.mem_append]
  exact not_or.mpr ⟨not_or.mpr ⟨name, digits⟩, ending⟩

theorem exists_mem_lengthLine (length : Nat) : ∃ c ∈ lengthLine length, c ≠ '\r' := by
  have first : 'C' ∈ "Content-Length: ".toList := by decide
  refine ⟨'C', ?_, by decide⟩
  exact List.mem_append_left _ (List.mem_append_left _ first)

/-- The header block that announces a length. -/
def lengthBlock (length : Nat) : Block where
  lines := [lengthLine length]
  returns := 1
  unbroken := List.forall_mem_singleton.mpr (lineFeed_notMem_lengthLine length)
  filled := List.forall_mem_singleton.mpr (exists_mem_lengthLine length)

theorem bytes_lengthBlock (length : Nat) : (lengthBlock length).bytes = header length := by
  show Utf8.encode ((lengthLine length ++ ['\n'] ++ []) ++ ['\r', '\n']) = header length
  unfold lengthLine
  rw [List.append_nil, List.append_assoc, List.append_assoc]
  rfl

theorem length?_lengthBlock {length : Nat} (h : length < 0x10000000000000000) :
    (lengthBlock length).length? = some length := by
  show announcedBy none [lengthLine length] = some length
  rw [announcedBy_cons, announced?_lengthLine h]
  rfl

/-! ## The frame of a value -/

/-- The frame in which a value is written. -/
def ofValue (value : Json) (fits : (Utf8.encode value.print).length ≤ maxLength) : Frame where
  block := lengthBlock (Utf8.encode value.print).length
  body := Utf8.encode value.print
  announced := length?_lengthBlock (Nat.lt_of_le_of_lt fits (by decide))
  fits := fits

theorem bytes_ofValue {value : Json} (fits : (Utf8.encode value.print).length ≤ maxLength) :
    (ofValue value fits).bytes = write value := by
  unfold bytes
  rw [ofValue, bytes_lengthBlock]
  rfl

/-- A value that is written is read, if its text stands for it, and nothing behind it is. -/
theorem read_write {value : Json} (fits : (Utf8.encode value.print).length ≤ maxLength)
    (parses : Json.parse? value.print = some value) (rest : List UInt8) :
    read (write value ++ rest) = (.message value, rest) := by
  have body : readBody (Utf8.encode value.print) = .message value := by
    unfold readBody
    rw [Utf8.decode?_encode, Option.bind_some, parses]
  rw [← bytes_ofValue fits, read_bytes]
  exact congrArg (·, rest) body

/-- Reads a number of times, each time from where the time before ended. -/
def readMany : Nat → List UInt8 → List Reading × List UInt8
  | 0, input => ([], input)
  | count + 1, input =>
    let (reading, next) := read input
    let (readings, rest) := readMany count next
    (reading :: readings, rest)

theorem readMany_flatMap_write (values : List Json)
    (fits : ∀ value ∈ values, (Utf8.encode value.print).length ≤ maxLength)
    (parses : ∀ value ∈ values, Json.parse? value.print = some value) (more : Nat)
    (rest : List UInt8) :
    readMany (values.length + more) (values.flatMap write ++ rest) =
      (values.map .message ++ (readMany more rest).1, (readMany more rest).2) := by
  induction values with
  | nil => simp
  | cons value others ih =>
    have first := read_write (fits value List.mem_cons_self) (parses value List.mem_cons_self)
      (others.flatMap write ++ rest)
    have tail := ih (fun other member => fits other (List.mem_cons_of_mem _ member))
      (fun other member => parses other (List.mem_cons_of_mem _ member))
    rw [List.length_cons, Nat.add_right_comm, List.flatMap_cons, List.append_assoc, readMany,
      first]
    dsimp only
    rw [tail]
    rfl

/-- Values whose texts fit into frames and stand for the values are read in the order in which they
were written, and what follows them stays unread. If nothing follows, the next reading finds the end
of the stream. -/
theorem readMany_write (values : List Json)
    (fits : ∀ value ∈ values, (Utf8.encode value.print).length ≤ maxLength)
    (parses : ∀ value ∈ values, Json.parse? value.print = some value) :
    (∀ rest, readMany values.length (values.flatMap write ++ rest) =
      (values.map .message, rest)) ∧
    readMany (values.length + 1) (values.flatMap write) =
      (values.map .message ++ [.ended], []) := by
  constructor
  · intro rest
    have whole := readMany_flatMap_write values fits parses 0 rest
    simpa [readMany] using whole
  · have whole := readMany_flatMap_write values fits parses 1 []
    simpa [readMany, read_nil] using whole

/-- A text that looks like a header block. -/
def headerText : Json := .str "Content-Length: 9\r\n\r\nü"

theorem length_headerText : (Utf8.encode headerText.print).length = 29 := by decide

theorem parse?_headerText : Json.parse? headerText.print = some headerText := by
  have token : Json.Token.next? (headerText.print.dropWhile Json.Token.isBlank) =
      some (.text "Content-Length: 9\r\n\r\nü", []) := rfl
  refine (Json.Reader.run_of_next? token rfl).trans ?_
  exact Json.Reader.run_nil _ _

theorem readMany_write_headerText :
    (∀ value ∈ [headerText, headerText], (Utf8.encode value.print).length ≤ maxLength) ∧
    (∀ value ∈ [headerText, headerText], Json.parse? value.print = some value) ∧
    readMany 2 (write headerText ++ (write headerText ++ [13, 10])) =
      ([.message headerText, .message headerText], [13, 10]) := by
  have fits : ∀ value ∈ [headerText, headerText],
      (Utf8.encode value.print).length ≤ maxLength := by
    simp [length_headerText, maxLength]
  have parses : ∀ value ∈ [headerText, headerText], Json.parse? value.print = some value := by
    simp [parse?_headerText]
  exact ⟨fits, parses, (readMany_write [headerText, headerText] fits parses).1 [13, 10]⟩

end Frame

end LanguageServer
