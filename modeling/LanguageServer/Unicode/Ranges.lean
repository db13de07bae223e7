/-!
Properties of characters that a standard gives as runs of code points.
-/

namespace LanguageServer.Unicode

/-- Whether a code point lies in one of the ascending `ranges`, each a first and a last code
point. The search ends at the first range that starts after the code point. -/
def inRanges (code : Nat) : List (Nat × Nat) → Bool
  | [] => false
  | (first, last) :: rest =>
    if code < first then false else if code ≤ last then true else inRanges code rest

/-- A code point that is found lies in one of the ranges. -/
theorem exists_of_inRanges {code : Nat} {ranges : List (Nat × Nat)}
    (h : inRanges code ranges = true) : ∃ range ∈ ranges, range.1 ≤ code ∧ code ≤ range.2 := by
  induction ranges with
  | nil => cases h
  | cons range rest ih => grind [inRanges]

end LanguageServer.Unicode
