import LanguageServer.Json.Parser
import LanguageServer.Json.Printer
import LanguageServer.Unicode.Utf8
import LanguageServer.Unicode.WhiteSpace
/-!
Framing of messages in a stream of bytes: a block of header lines, of which one gives the length
of the body, an empty line, and the body. Main statement: reading takes at least one byte unless
the stream has ended (`length_lt_of_read`).
-/

namespace LanguageServer

/-- Why no message can be read. -/
inductive ReadError
  | notUtf8
  | missingLength
  | tooLarge (length : Nat)
  | truncated
  | malformed
  deriving DecidableEq, Repr

/-- The text of an error. A header line that is not UTF-8 and a body that ends early are errors of
the stream, and a malformed body is one of the reader of JSON. What these have to say is not fixed
here: one text stands for each kind. -/
def ReadError.message : ReadError → String
  | notUtf8 => "header line is not UTF-8"
  | missingLength => "missing Content-Length header"
  | tooLarge length => "message of " ++ toString length ++ " bytes exceeds the size limit"
  | truncated => "message ends before its announced length"
  | malformed => "malformed JSON"

/-- What is read from a stream. -/
inductive Reading
  | ended
  | message (value : Json)
  | failed (error : ReadError)

namespace Frame

/-- The length of the longest body that is read. -/
def maxLength : Nat := 64 * 1024 * 1024

def lineFeed : UInt8 := 10

/-- Parts a stream behind its first line feed. Without one all of it is the line. -/
def readLine (input : List UInt8) : List UInt8 × List UInt8 :=
  match input.dropWhile (· != lineFeed) with
  | [] => (input, [])
  | _ :: rest => (input.takeWhile (· != lineFeed) ++ [lineFeed], rest)

/-- Drops all carriage returns and line feeds at the end of a line. -/
def trimBreaks (line : List Char) : List Char :=
  (line.reverse.dropWhile fun c => c = '\r' ∨ c = '\n').reverse

/-- Reads a size below 2⁶⁴ in decimal digits, which a plus sign may precede. -/
def size? (chars : List Char) : Option Nat :=
  let digits := match chars with
    | '+' :: rest => rest
    | chars => chars
  if digits ≠ [] ∧ digits.all Json.isDigit then
    let n := digits.foldl (fun n d => n * 10 + Json.digitValue d) 0
    if n < 0x10000000000000000 then some n else none
  else none

/-- Whether a header field has the name that announces the length, in any case. -/
def isLengthName (name : List Char) : Bool :=
  (Unicode.trim name).map Char.toLower = "content-length".toList

/-- The length that a header line announces. There is none if the line announces something else, and
the inner value is missing if what it announces is no size. -/
def announced? (line : List Char) : Option (Option Nat) :=
  match line.dropWhile (· != ':') with
  | _ :: value =>
    if isLengthName (line.takeWhile (· != ':')) then some (size? (Unicode.trim value)) else none
  | [] => none

/-- What a line of a header block leads to. -/
inductive BlockStep
  | more (length : Option Nat)
  | complete (length : Option Nat)
  | notUtf8
  deriving DecidableEq, Repr

/-- Takes a header line, when the lines before it announced `length`. An empty line ends the
block; the last line that announces a length counts. -/
def blockStep (length : Option Nat) (line : List UInt8) : BlockStep :=
  match Utf8.decode? line with
  | none => .notUtf8
  | some chars =>
    match trimBreaks chars with
    | [] => .complete length
    | chars => .more ((announced? chars).getD length)

/-- How a header block ends. -/
inductive BlockEnd
  | ended
  | complete (length : Option Nat)
  | notUtf8
  deriving DecidableEq, Repr

theorem length_readLine (input : List UInt8) :
    (readLine input).1.length + (readLine input).2.length = input.length := by
  have parts := List.takeWhile_append_dropWhile (p := (· != lineFeed)) (l := input)
  have lengths := congrArg List.length parts
  unfold readLine
  split
  · simp
  · rename_i rest dropped
    simp only [dropped, List.length_append, List.length_cons] at lengths
    simp only [List.length_append, List.length_cons, List.length_nil]
    omega

theorem readLine_ne_nil {input : List UInt8} (h : input ≠ []) : (readLine input).1 ≠ [] := by
  unfold readLine
  split
  · exact h
  · simp

theorem length_readLine_lt {input : List UInt8} (h : input ≠ []) :
    (readLine input).2.length < input.length := by
  have := length_readLine input
  have := List.length_pos_iff.mpr (readLine_ne_nil h)
  omega

/-- Reads a header block, when the lines before announced `length`. -/
def readBlock (length : Option Nat) (input : List UInt8) : BlockEnd × List UInt8 :=
  if _nonempty : input = [] then (.ended, [])
  else
    match blockStep length (readLine input).1 with
    | .more length => readBlock length (readLine input).2
    | .complete length => (.complete length, (readLine input).2)
    | .notUtf8 => (.notUtf8, (readLine input).2)
termination_by input.length
decreasing_by exact length_readLine_lt _nonempty

def readBody (body : List UInt8) : Reading :=
  match (Utf8.decode? body).bind Json.parse? with
  | some value => .message value
  | none => .failed .malformed

/-- Reads one message. A body that is too long stays unread. -/
def read (input : List UInt8) : Reading × List UInt8 :=
  match readBlock none input with
  | (.ended, rest) => (.ended, rest)
  | (.notUtf8, rest) => (.failed .notUtf8, rest)
  | (.complete none, rest) => (.failed .missingLength, rest)
  | (.complete (some length), rest) =>
    if maxLength < length then (.failed (.tooLarge length), rest)
    else if rest.length < length then (.failed .truncated, [])
    else (readBody (rest.take length), rest.drop length)

/-- How many bytes a stream has to go on for at least before one more message can be read; none if
that can be done. -/
def demand (length : Option Nat) (input : List UInt8) : Nat :=
  if _nonempty : input = [] then 1
  else
    let line := (readLine input).1
    if line.getLast? ≠ some lineFeed then 1
    else
      match blockStep length line with
      | .more length => demand length (readLine input).2
      | .complete (some length) =>
        if maxLength < length then 0 else length - (readLine input).2.length
      | .complete none => 0
      | .notUtf8 => 0
termination_by input.length
decreasing_by exact length_readLine_lt _nonempty

/-- The header block that announces a body. -/
def header (length : Nat) : List UInt8 :=
  Utf8.encode ("Content-Length: ".toList ++ Json.decimal length ++ "\r\n\r\n".toList)

/-- The bytes that carry a message. -/
def write (value : Json) : List UInt8 :=
  let body := Utf8.encode value.print
  header body.length ++ body

theorem length_lt_of_readBlock {input : List UInt8} (h : input ≠ []) (length : Option Nat) :
    (readBlock length input).2.length < input.length := by
  fun_induction readBlock length input with
  | case1 => contradiction
  | case2 length input _ next step ih =>
    have shorter := length_readLine_lt h
    by_cases rest : (readLine input).2 = []
    · rw [rest] at ih ⊢
      unfold readBlock
      simpa using List.length_pos_iff.mpr h
    · exact Nat.lt_trans (ih rest) shorter
  | case3 | case4 => exact length_readLine_lt h

theorem length_lt_of_read {input : List UInt8} (h : input ≠ []) :
    (read input).2.length < input.length := by
  have shorter := length_lt_of_readBlock h none
  have := List.length_pos_iff.mpr h
  unfold read
  split <;> simp_all only
  split
  · exact shorter
  · split
    · simpa using this
    · simp only [List.length_drop]
      omega

/-- At the end of a stream nothing is read. -/
theorem read_nil : read [] = (.ended, []) := by
  unfold read readBlock
  rfl

end Frame

end LanguageServer
