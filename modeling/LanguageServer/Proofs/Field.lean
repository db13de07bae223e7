import LanguageServer.Proofs.Document
import LanguageServer.Wire.Field
/-!
# Typed members

When a typed member of a JSON value is read, and what it is then: one lemma a type.
-/

namespace LanguageServer.Json

variable {value : Json} {name : String}

theorem field_eq_ok {member : Json} :
    value.field name = .ok member ↔ value.get? name = some member := by
  unfold field
  cases value.get? name with
  | none => simp
  | some found => simp

theorem stringField_eq_ok {s : String} :
    value.stringField name = .ok s ↔ value.get? name = some (.str s) := by
  unfold stringField field
  cases value.get? name with
  | none => simp [bind, Except.bind]
  | some member => cases member <;> simp [bind, Except.bind]

theorem arrayField_eq_ok {items : List Json} :
    value.arrayField name = .ok items ↔ value.get? name = some (.arr items) := by
  unfold arrayField field
  cases value.get? name with
  | none => simp [bind, Except.bind]
  | some member => cases member <;> simp [bind, Except.bind]

theorem int32Field_of_int {i : Int} (found : value.get? name = some (.int i)) :
    value.int32Field name =
      if -0x80000000 ≤ i ∧ i < 0x80000000 then .ok (.ofInt i) else .error (.notInt32 name) := by
  unfold int32Field
  rw [field_eq_ok.mpr found]
  rfl

theorem exists_int_of_int32Field {n : Int32} (read : value.int32Field name = .ok n) :
    ∃ i, value.get? name = some (.int i) := by
  unfold int32Field at read
  obtain ⟨member, found, read⟩ := bind_eq_ok.mp read
  split at read
  · exact ⟨_, field_eq_ok.mp found⟩
  · cases read

/-- An integer with a sign is read as it is, if it fits thirty-two bits. -/
theorem int32Field_eq_ok {n : Int32} :
    value.int32Field name = .ok n ↔ value.get? name = some (.int n.toInt) := by
  constructor
  · intro read
    obtain ⟨i, found⟩ := exists_int_of_int32Field read
    rw [int32Field_of_int found] at read
    split at read
    · rename_i fits
      cases read
      rw [found, Int32.toInt_ofInt_of_le fits.1 fits.2]
    · cases read
  · intro found
    rw [int32Field_of_int found, if_pos ⟨n.le_toInt, n.toInt_lt⟩, Int32.ofInt_toInt]

theorem uint32Field_of_int {i : Int} (found : value.get? name = some (.int i)) :
    value.uint32Field name =
      if 0 ≤ i ∧ i < 0x100000000 then .ok (.ofNat i.toNat) else .error (.notUInt32 name) := by
  unfold uint32Field
  rw [field_eq_ok.mpr found]
  rfl

theorem exists_int_of_uint32Field {n : UInt32} (read : value.uint32Field name = .ok n) :
    ∃ i, value.get? name = some (.int i) := by
  unfold uint32Field at read
  obtain ⟨member, found, read⟩ := bind_eq_ok.mp read
  split at read
  · exact ⟨_, field_eq_ok.mp found⟩
  · cases read

/-- An integer of thirty-two bits without a sign is the number that it is stored as. -/
theorem toNat_ofNat_toNat {i : Int} (low : 0 ≤ i) (high : i < 0x100000000) :
    ((UInt32.ofNat i.toNat).toNat : Int) = i := by
  have size : UInt32.size = 0x100000000 := rfl
  have small : i.toNat < UInt32.size := by omega
  rw [UInt32.toNat_ofNat_of_lt' small, Int.toNat_of_nonneg low]

/-- An integer without a sign is read as it is, if it fits thirty-two bits. -/
theorem uint32Field_eq_ok {n : UInt32} :
    value.uint32Field name = .ok n ↔ value.get? name = some (.int n.toNat) := by
  constructor
  · intro read
    obtain ⟨i, found⟩ := exists_int_of_uint32Field read
    rw [uint32Field_of_int found] at read
    split at read
    · rename_i fits
      cases read
      rw [found, toNat_ofNat_toNat fits.1 fits.2]
    · cases read
  · intro found
    have bound := n.toNat_lt
    have fits : (0 : Int) ≤ n.toNat ∧ (n.toNat : Int) < 0x100000000 := by omega
    rw [uint32Field_of_int found, if_pos fits, Int.toNat_natCast, UInt32.ofNat_toNat]

end LanguageServer.Json
