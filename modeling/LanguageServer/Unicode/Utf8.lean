/-!
Characters as bytes. Main statement: a byte string decodes to some characters exactly when it is
what those characters encode to (`decode?_eq_some_iff`).
-/

namespace LanguageServer.Utf8

def encode (chars : List Char) : List UInt8 := chars.flatMap String.utf8EncodeChar

/-- The characters that a byte string encodes, if it is well formed. -/
def decode? (bytes : List UInt8) : Option (List Char) :=
  (String.fromUTF8? ⟨bytes.toArray⟩).map String.toList

theorem utf8Encode_eq (chars : List Char) : chars.utf8Encode = ⟨(encode chars).toArray⟩ := by
  ext1
  simp [List.utf8Encode, encode]

theorem decode?_eq_some_iff {bytes : List UInt8} {chars : List Char} :
    decode? bytes = some chars ↔ bytes = encode chars := by
  simp only [decode?, String.fromUTF8?, Option.map_eq_some_iff]
  constructor
  · rintro ⟨s, found, rfl⟩
    split at found
    · have whole : s.toByteArray = ⟨bytes.toArray⟩ := by cases found; rfl
      rw [← String.utf8Encode_toList, utf8Encode_eq] at whole
      simpa using (congrArg (fun b => b.data.toList) whole).symm
    · cases found
  · rintro rfl
    have valid : (ByteArray.mk (encode chars).toArray).IsValidUTF8 :=
      utf8Encode_eq chars ▸ ByteArray.isValidUTF8_utf8Encode
    refine ⟨String.ofList chars, ?_, String.toList_ofList⟩
    rw [dif_pos valid, Option.some.injEq, ← String.toByteArray_inj, String.toByteArray_ofList,
      utf8Encode_eq]
    rfl

/-- What some characters encode to decodes to them. -/
theorem decode?_encode (chars : List Char) : decode? (encode chars) = some chars :=
  decode?_eq_some_iff.mpr rfl

end LanguageServer.Utf8
