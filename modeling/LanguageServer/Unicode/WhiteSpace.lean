import LanguageServer.Unicode.Ranges
/-!
The White_Space property, twenty-five code points, and the trimming of characters by it.
-/

namespace LanguageServer.Unicode

def whiteSpaceRanges : List (Nat × Nat) := [
    (0x9, 0xD), (0x20, 0x20), (0x85, 0x85), (0xA0, 0xA0), (0x1680, 0x1680), (0x2000, 0x200A),
    (0x2028, 0x2029), (0x202F, 0x202F), (0x205F, 0x205F), (0x3000, 0x3000)]

def isWhiteSpace (c : Char) : Bool := inRanges c.toNat whiteSpaceRanges

/-- Drops the longest part at the end that is white space only. -/
def trimEnd (chars : List Char) : List Char := (chars.reverse.dropWhile isWhiteSpace).reverse

def trim (chars : List Char) : List Char := trimEnd (chars.dropWhile isWhiteSpace)

/-- The code points of white space, one by one. -/
def whiteSpaceCodes : List Nat := [
    0x9, 0xA, 0xB, 0xC, 0xD, 0x20, 0x85, 0xA0, 0x1680, 0x2000, 0x2001, 0x2002, 0x2003, 0x2004,
    0x2005, 0x2006, 0x2007, 0x2008, 0x2009, 0x200A, 0x2028, 0x2029, 0x202F, 0x205F, 0x3000]

theorem toNat_mem_of_isWhiteSpace {c : Char} (h : isWhiteSpace c = true) :
    c.toNat ∈ whiteSpaceCodes := by
  obtain ⟨range, mem, low, high⟩ := exists_of_inRanges h
  simp only [whiteSpaceRanges, whiteSpaceCodes, List.mem_cons, List.not_mem_nil, or_false] at mem ⊢
  rcases mem with rfl | rfl | rfl | rfl | rfl | rfl | rfl | rfl | rfl | rfl <;>
    simp only at low high <;> omega

end LanguageServer.Unicode
