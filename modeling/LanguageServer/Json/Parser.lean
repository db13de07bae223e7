import LanguageServer.Json.Token
/-!
Reading JSON values. The reader takes token after token and holds the containers that are still
open, the innermost first, so how deep values may nest is a bound on the length of that list.
-/

namespace LanguageServer.Json

/-- A container that waits for a value: an array with the items before it, the last one first, or an
object with the members before it and the name of the value. -/
inductive Open
  | array (items : List Json)
  | object (members : List (String × Json)) (name : String)

/-- What the reader has to see next. After a complete value that depends on the innermost open
container, if there is one. -/
inductive Expected
  | value
  | item
  | name (members : List (String × Json)) (first : Bool)
  | colon (members : List (String × Json)) (name : String)
  | afterValue (value : Json)

structure Reader where
  containers : List Open
  expected : Expected

namespace Reader

def start : Reader := ⟨[], .value⟩

/-- Takes the first token of a value. At most `limit` containers may be open at a time. -/
def beginValue (limit : Nat) (containers : List Open) : Token → Option Reader
  | .plain value => some ⟨containers, .afterValue value⟩
  | .text value => some ⟨containers, .afterValue (.str value)⟩
  | .openArray => if containers.length < limit then some ⟨.array [] :: containers, .item⟩ else none
  | .openObject => if containers.length < limit then some ⟨containers, .name [] true⟩ else none
  | _ => none

/-- Takes the token after a value: a comma, or the end of the innermost container. -/
def endValue (value : Json) : List Open → Token → Option Reader
  | .array items :: outer, .comma => some ⟨.array (value :: items) :: outer, .value⟩
  | .array items :: outer, .closeArray => some ⟨outer, .afterValue (.arr (value :: items).reverse)⟩
  | .object members name :: outer, .comma =>
    some ⟨outer, .name (Table.insert name value members) false⟩
  | .object members name :: outer, .closeObject =>
    some ⟨outer, .afterValue (.obj (Table.insert name value members))⟩
  | _, _ => none

def step (limit : Nat) (reader : Reader) (token : Token) : Option Reader :=
  match reader.expected, reader.containers, token with
  | .value, containers, token => beginValue limit containers token
  | .item, .array _ :: outer, .closeArray => some ⟨outer, .afterValue (.arr [])⟩
  | .item, containers, token => beginValue limit containers token
  | .name members _, containers, .text name => some ⟨containers, .colon members name⟩
  | .name members true, containers, .closeObject => some ⟨containers, .afterValue (.obj members)⟩
  | .colon members name, containers, .colon => some ⟨.object members name :: containers, .value⟩
  | .afterValue value, containers, token => endValue value containers token
  | _, _, _ => none

/-- The value that has been read, if it is complete. -/
def result? (reader : Reader) : Option Json :=
  match reader.expected, reader.containers with
  | .afterValue value, [] => some value
  | _, _ => none

/-- Reads all of some characters. -/
def run (limit : Nat) (reader : Reader) (chars : List Char) : Option Json :=
  if chars.dropWhile Token.isBlank = [] then reader.result?
  else
    match _next : Token.next? (chars.dropWhile Token.isBlank) with
    | none => none
    | some (token, rest) =>
      match reader.step limit token with
      | none => none
      | some reader => run limit reader rest
termination_by chars.length
decreasing_by
  have := Token.length_lt_of_next? _next
  have := (List.dropWhile_suffix (l := chars) Token.isBlank).length_le
  omega

theorem run_nil (limit : Nat) (reader : Reader) : run limit reader [] = reader.result? := by
  rw [run, List.dropWhile_nil, if_pos rfl]

/-- Reading goes on behind a token that the reader takes. -/
theorem run_of_next? {limit : Nat} {reader next : Reader} {chars rest : List Char} {token : Token}
    (read : Token.next? (chars.dropWhile Token.isBlank) = some (token, rest))
    (taken : reader.step limit token = some next) :
    run limit reader chars = run limit next rest := by
  have nonempty : chars.dropWhile Token.isBlank ≠ [] := by
    intro empty
    rw [empty] at read
    cases read
  rw [run, if_neg nonempty]
  split
  · rename_i none
    cases none.symm.trans read
  · rename_i some
    obtain ⟨⟩ := some.symm.trans read
    rw [taken]

end Reader

/-- The JSON value that some characters write, if containers nest at most `limit` deep in it. -/
def parseWithin? (limit : Nat) (chars : List Char) : Option Json := Reader.run limit .start chars

/-- How deep the containers of a message may nest. -/
def nestingLimit : Nat := 127

def parse? (chars : List Char) : Option Json := parseWithin? nestingLimit chars

end LanguageServer.Json
