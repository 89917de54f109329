import OrmDdl.Text.Ranges
/-!
# Blank characters

Characters with the Unicode property White_Space, and trimming text of them.
-/

namespace OrmDdl.Text

/-- The code points with the property White_Space, 25 in all. -/
def blankRanges : List (Nat × Nat) :=
  [(0x09, 0x0D), (0x20, 0x20), (0x85, 0x85), (0xA0, 0xA0), (0x1680, 0x1680), (0x2000, 0x200A),
   (0x2028, 0x2029), (0x202F, 0x202F), (0x205F, 0x205F), (0x3000, 0x3000)]

def isBlank (c : Char) : Bool := inRanges blankRanges c

/-- The text from its first character that is not blank. -/
def trimStart (s : List Char) : List Char := s.dropWhile isBlank

/-- The text between its first and its last character that is not blank. -/
def trim (s : List Char) : List Char := (trimStart (trimStart s).reverse).reverse

/-- Whether nothing but blanks is in the text. -/
def isAllBlank (s : String) : Bool := s.toList.all isBlank

theorem isBlank_of_isWhitespace {c : Char} (h : c.isWhitespace = true) : isBlank c = true := by
  simp only [Char.isWhitespace, Bool.or_eq_true, decide_eq_true_eq] at h
  rcases h with ((h | h) | h) | h <;> subst h <;> decide

end OrmDdl.Text
