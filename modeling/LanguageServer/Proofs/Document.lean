import LanguageServer.Document
/-!
# Applying changes

When a change, or a batch of them, is accepted, and what it leaves.
-/

namespace LanguageServer

theorem bind_eq_ok {ε α β : Type} {x : Except ε α} {f : α → Except ε β} {b : β} :
    x >>= f = .ok b ↔ ∃ a, x = .ok a ∧ f a = .ok b := by
  cases x with
  | error error => simp [bind, Except.bind]
  | ok a => simp [bind, Except.bind]

theorem bind_eq_error {ε α β : Type} {x : Except ε α} {f : α → Except ε β} {error : ε} :
    x >>= f = .error error ↔ x = .error error ∨ ∃ a, x = .ok a ∧ f a = .error error := by
  cases x with
  | error other => simp [bind, Except.bind]
  | ok a => simp [bind, Except.bind]

namespace Text

theorem resolve_eq_ok {text : Text} {position : Position} {offset : Nat} :
    text.resolve position = .ok offset ↔ text.offset? position = some offset := by
  unfold resolve
  cases text.offset? position with
  | none => simp
  | some found => simp

theorem resolve_eq_error {text : Text} {position : Position} {error : DocumentError} :
    text.resolve position = .error error ↔
      text.offset? position = none ∧ error = .invalidPosition position := by
  unfold resolve
  cases text.offset? position with
  | none => simp [eq_comm]
  | some found => simp

theorem chars_replace (text : Text) {start stop : Nat} (h : start ≤ stop) (new : List Char) :
    (text.replace start stop new).chars =
      text.chars.take start ++ new ++ text.chars.drop stop := by
  rw [replace, Nat.max_eq_right h]

/-- A change of a range is accepted if both its ends denote offsets. -/
theorem apply_range_eq_ok {text next : Text} {range : Range} {new : String} :
    text.apply ⟨some range, new⟩ = .ok next ↔
      ∃ a b, text.offset? range.start = some a ∧ text.offset? range.stop = some b ∧
        next = text.replace (min a b) (max a b) new.toList := by
  unfold apply
  simp only [bind_eq_ok, resolve_eq_ok, Except.ok.injEq]
  constructor
  · rintro ⟨a, start, b, stop, rfl⟩
    exact ⟨a, b, start, stop, rfl⟩
  · rintro ⟨a, b, start, stop, rfl⟩
    exact ⟨a, start, b, stop, rfl⟩

theorem applyAll_cons_eq_ok {text next : Text} {change : Change} {rest : List Change} :
    text.applyAll (change :: rest) = .ok next ↔
      ∃ middle, text.apply change = .ok middle ∧ middle.applyAll rest = .ok next :=
  bind_eq_ok

end Text

end LanguageServer
