/-!
The way to a client that may stop taking what is written to it.
-/

namespace LanguageServer

/-- Whether the first thing written is taken, the second one, and so on, and how many writes there
have been. -/
structure Outlet where
  takes : Nat → Bool
  writes : Nat

/-- How writing came out: the outlet after it, what was taken, and whether that was all. -/
structure Delivery (α : Type) where
  outlet : Outlet
  taken : List α
  complete : Bool

namespace Outlet

variable {α : Type}

/-- An outlet that takes everything. -/
def working : Outlet := ⟨fun _ => true, 0⟩

/-- An outlet that takes nothing. -/
def broken : Outlet := ⟨fun _ => false, 0⟩

/-- Writes one thing after another up to the first one that is not taken. -/
def send (outlet : Outlet) : List α → Delivery α
  | [] => ⟨outlet, [], true⟩
  | item :: rest =>
    let next := { outlet with writes := outlet.writes + 1 }
    if outlet.takes outlet.writes then
      let delivery := next.send rest
      { delivery with taken := item :: delivery.taken }
    else ⟨next, [], false⟩

end Outlet

end LanguageServer
