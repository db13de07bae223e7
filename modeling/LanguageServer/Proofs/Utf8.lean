import LanguageServer.Frame
/-!
# Bytes of characters

Two facts about UTF-8 on which all else about bytes rests here: a line feed byte comes from a line
feed only (`lineFeed_mem_encode`), and bytes are in the order of the characters that they encode
(`encode_lt_encode`), so that what is in the order of its characters is in the order of its bytes.
-/

namespace LanguageServer.Utf8

theorem toNat_val_lt (c : Char) : c.val.toNat < 0x110000 := by
  have := c.valid
  simp only [UInt32.isValidChar, Nat.isValidChar] at this
  omega

theorem encode_cons (c : Char) (rest : List Char) :
    encode (c :: rest) = String.utf8EncodeChar c ++ encode rest := rfl

@[simp] theorem encode_append (front back : List Char) :
    encode (front ++ back) = encode front ++ encode back :=
  List.flatMap_append

@[simp] theorem encode_lineFeed : encode ['\n'] = [Frame.lineFeed] := rfl

/-- Every byte of a character of several bytes has its highest bit. -/
theorem le_of_mem_utf8EncodeChar {c : Char} (h : 127 < c.val.toNat) {byte : UInt8}
    (member : byte ∈ String.utf8EncodeChar c) : 128 ≤ byte.toNat := by
  unfold String.utf8EncodeChar at member
  dsimp only at member
  rw [if_neg (Nat.not_le.mpr h)] at member
  split at member
  · simp only [List.mem_cons, List.not_mem_nil, or_false] at member
    rcases member with rfl | rfl <;> rw [UInt8.toNat_ofNat'] <;> omega
  · split at member
    · simp only [List.mem_cons, List.not_mem_nil, or_false] at member
      rcases member with rfl | rfl | rfl <;> rw [UInt8.toNat_ofNat'] <;> omega
    · simp only [List.mem_cons, List.not_mem_nil, or_false] at member
      rcases member with rfl | rfl | rfl | rfl <;> rw [UInt8.toNat_ofNat'] <;> omega

theorem lineFeed_mem_utf8EncodeChar {c : Char} :
    Frame.lineFeed ∈ String.utf8EncodeChar c ↔ c = '\n' := by
  constructor
  · intro member
    by_cases single : c.val.toNat ≤ 127
    · unfold String.utf8EncodeChar at member
      dsimp only at member
      rw [if_pos single, List.mem_singleton, ← UInt8.toNat_inj, UInt8.toNat_ofNat'] at member
      have value : c.val.toNat = 10 := by
        rw [Nat.mod_eq_of_lt (by omega)] at member
        exact member.symm
      exact Char.val_inj.mp (UInt32.toNat_inj.mp value)
    · have high := le_of_mem_utf8EncodeChar (Nat.not_le.mp single) member
      exact absurd high (by decide)
  · rintro rfl
    decide

/-- A line feed byte is a line feed. -/
theorem lineFeed_mem_encode {chars : List Char} :
    Frame.lineFeed ∈ encode chars ↔ '\n' ∈ chars := by
  simp only [encode, List.mem_flatMap, lineFeed_mem_utf8EncodeChar, exists_eq_right]

/-- The bytes of two characters differ somewhere, and the first byte that differs decides. -/
theorem utf8EncodeChar_append_lt {c d : Char} (h : c < d) (front back : List UInt8) :
    String.utf8EncodeChar c ++ front < String.utf8EncodeChar d ++ back := by
  have less : c.val.toNat < d.val.toNat := h
  have bound := toNat_val_lt d
  have twice : ∀ n, n / 4096 = n / 64 / 64 := by omega
  have thrice : ∀ n, n / 262144 = n / 64 / 64 / 64 := by omega
  unfold String.utf8EncodeChar
  simp only [twice, thrice]
  generalize c.val.toNat = v at less ⊢
  generalize d.val.toNat = w at less bound ⊢
  -- one case for every pair of sizes
  repeat' split
  all_goals
    simp only [List.cons_append, List.nil_append, List.cons_lt_cons_iff, UInt8.lt_iff_toNat_lt,
      ← UInt8.toNat_inj, UInt8.toNat_ofNat']
    omega

theorem encode_ne_nil {chars : List Char} (h : chars ≠ []) : encode chars ≠ [] := by
  cases chars with
  | nil => contradiction
  | cons c rest =>
    rw [encode_cons]
    exact List.append_ne_nil_of_left_ne_nil (String.utf8EncodeChar_ne_nil) _

/-- Bytes are in the order of the characters that they encode. -/
theorem encode_lt_encode {front back : List Char} (h : front < back) :
    encode front < encode back := by
  induction front generalizing back with
  | nil =>
    cases back with
    | nil => exact absurd h (List.lt_irrefl _)
    | cons d rest =>
      have nonempty : encode (d :: rest) ≠ [] := encode_ne_nil (List.cons_ne_nil d rest)
      obtain ⟨byte, more, shape⟩ := List.exists_cons_of_ne_nil nonempty
      rw [shape]
      exact List.nil_lt_cons byte more
  | cons c rest ih =>
    cases back with
    | nil => exact absurd h (List.not_lt_nil _)
    | cons d others =>
      rw [encode_cons, encode_cons]
      rcases List.cons_lt_cons_iff.mp h with less | ⟨rfl, later⟩
      · exact utf8EncodeChar_append_lt less _ _
      · exact List.append_left_lt (ih later)

end LanguageServer.Utf8
