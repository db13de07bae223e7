import LanguageServer.Json.Numeral
/-!
The tokens of JSON: punctuation, strings, and the values that need no punctuation. Main statement:
reading a token takes at least one character (`length_lt_of_next?`).
-/

namespace LanguageServer.Json

inductive Token
  | openArray
  | closeArray
  | openObject
  | closeObject
  | comma
  | colon
  | text (value : String)
  | plain (value : Json)

namespace Token

/-- The space that may stand between tokens. -/
def isBlank (c : Char) : Bool := c = ' ' ∨ c = '\t' ∨ c = '\n' ∨ c = '\r'

def hexValue? (c : Char) : Option Nat :=
  if '0' ≤ c ∧ c ≤ '9' then some (c.toNat - '0'.toNat)
  else if 'a' ≤ c ∧ c ≤ 'f' then some (c.toNat - 'a'.toNat + 10)
  else if 'A' ≤ c ∧ c ≤ 'F' then some (c.toNat - 'A'.toNat + 10)
  else none

/-- The code unit that four hexadecimal digits write. -/
def unit? (a b c d : Char) : Option Nat := do
  let a ← hexValue? a
  let b ← hexValue? b
  let c ← hexValue? c
  let d ← hexValue? d
  some (((a * 16 + b) * 16 + c) * 16 + d)

/-- The character that a letter after a backslash stands for. -/
def shortEscape? : Char → Option Char
  | '"' => some '"'
  | '\\' => some '\\'
  | '/' => some '/'
  | 'b' => some '\x08'
  | 'f' => some '\x0c'
  | 'n' => some '\n'
  | 'r' => some '\r'
  | 't' => some '\t'
  | _ => none

/-- Reads a string up to its closing quote. `read` holds the characters so far, the last one first.
Surrogates count in pairs only, and control characters have to be escaped. -/
def string? (read : List Char) : List Char → Option (List Char × List Char)
  | [] => none
  | '"' :: rest => some (read.reverse, rest)
  | '\\' :: 'u' :: a :: b :: c :: d :: rest =>
    match unit? a b c d with
    | none => none
    | some high =>
      if 0xD800 ≤ high ∧ high ≤ 0xDBFF then
        match rest with
        | '\\' :: 'u' :: e :: f :: g :: h :: rest =>
          match unit? e f g h with
          | none => none
          | some low =>
            if 0xDC00 ≤ low ∧ low ≤ 0xDFFF then
              let code := 0x10000 + (high - 0xD800) * 0x400 + (low - 0xDC00)
              string? (Char.ofNat code :: read) rest
            else none
        | _ => none
      else if 0xDC00 ≤ high ∧ high ≤ 0xDFFF then none
      else string? (Char.ofNat high :: read) rest
  | '\\' :: c :: rest =>
    match shortEscape? c with
    | some c => string? (c :: read) rest
    | none => none
  | c :: rest => if c < ' ' then none else string? (c :: read) rest

/-- Reads the token at the head of some characters. -/
def next? : List Char → Option (Token × List Char)
  | '[' :: rest => some (openArray, rest)
  | ']' :: rest => some (closeArray, rest)
  | '\x7b' :: rest => some (openObject, rest)
  | '\x7d' :: rest => some (closeObject, rest)
  | ',' :: rest => some (comma, rest)
  | ':' :: rest => some (colon, rest)
  | '"' :: rest => (string? [] rest).map fun read => (text (String.ofList read.1), read.2)
  | 'n' :: 'u' :: 'l' :: 'l' :: rest => some (plain .null, rest)
  | 't' :: 'r' :: 'u' :: 'e' :: rest => some (plain (.bool true), rest)
  | 'f' :: 'a' :: 'l' :: 's' :: 'e' :: rest => some (plain (.bool false), rest)
  | chars => do
    let (numeral, rest) ← numeral? chars
    let value ← numeral.value?
    some (plain value, rest)

theorem length_lt_of_string? {read chars text rest : List Char}
    (h : string? read chars = some (text, rest)) : rest.length < chars.length := by
  fun_induction string? read chars <;> simp_all <;> omega

end Token

theorem length_digits (chars : List Char) :
    (digits chars).2.length + (digits chars).1.length = chars.length := by
  have := congrArg List.length (List.takeWhile_append_dropWhile (p := isDigit) (l := chars))
  simp only [digits, List.length_map, List.length_append] at this ⊢
  omega

theorem length_lt_of_whole? {chars rest : List Char} {ds : List Nat}
    (h : whole? chars = some (ds, rest)) : rest.length < chars.length := by
  have := length_digits chars
  unfold whole? at h
  split at h
  · cases h
  · cases h
  · rename_i ds' _ nonempty _ read
    have := List.length_pos_iff.mpr nonempty
    grind

theorem length_le_of_fraction? {chars rest : List Char} {ds : Option (List Nat)}
    (h : fraction? chars = some (ds, rest)) : rest.length ≤ chars.length := by
  unfold fraction? at h
  split at h
  · rename_i tail
    have := length_digits tail
    split at h <;> grind
  · grind

theorem length_sign_le (chars : List Char) : (sign chars).2.length ≤ chars.length := by
  unfold sign; split <;> simp

theorem length_le_of_exponent? {chars rest : List Char} {e : Option Int}
    (h : exponent? chars = some (e, rest)) : rest.length ≤ chars.length := by
  unfold exponent? at h
  split at h
  · grind
  · rename_i c tail
    have := length_sign_le tail
    have := length_digits (sign tail).2
    split at h
    · split at h
      grind
    · grind

theorem length_minus_le (chars : List Char) : (minus chars).2.length ≤ chars.length := by
  unfold minus; split <;> simp

theorem length_lt_of_numeral? {chars rest : List Char} {n : Numeral}
    (h : numeral? chars = some (n, rest)) : rest.length < chars.length := by
  have := length_minus_le chars
  simp only [numeral?, Option.bind_eq_bind, Option.bind_eq_some_iff, Option.some.injEq,
    Prod.mk.injEq] at h
  obtain ⟨⟨w, r⟩, hw, ⟨f, r'⟩, hf, ⟨e, r''⟩, he, -, rfl⟩ := h
  have := length_lt_of_whole? hw
  have := length_le_of_fraction? hf
  have := length_le_of_exponent? he
  dsimp only at *
  omega

theorem Token.length_lt_of_next? {chars rest : List Char} {token : Token}
    (h : next? chars = some (token, rest)) : rest.length < chars.length := by
  unfold next? at h
  split at h
  case h_7 =>
    simp only [Option.map_eq_some_iff, Prod.mk.injEq, Prod.exists] at h
    obtain ⟨text, r, hs, -, rfl⟩ := h
    have := length_lt_of_string? hs
    simp only [List.length_cons]
    omega
  case h_11 =>
    simp only [Option.bind_eq_bind, Option.bind_eq_some_iff, Option.some.injEq, Prod.mk.injEq] at h
    obtain ⟨⟨n, r⟩, hn, -, -, -, rfl⟩ := h
    exact length_lt_of_numeral? hn
  all_goals
    simp only [Option.some.injEq, Prod.mk.injEq] at h
    obtain ⟨-, rfl⟩ := h
    simp only [List.length_cons]
    omega

end LanguageServer.Json
