import ContentMounts.Text.Basic

/-!
# Blank characters

The characters with the Unicode property `White_Space`. Entry paths of an archive are freed of
them at both ends before they are read.
-/

namespace ContentMounts

namespace Text

/-- The ranges of code points with the property `White_Space`. -/
def blankRanges : List (Nat × Nat) :=
  [(0x09, 0x0D), (0x20, 0x20), (0x85, 0x85), (0xA0, 0xA0), (0x1680, 0x1680), (0x2000, 0x200A),
    (0x2028, 0x2029), (0x202F, 0x202F), (0x205F, 0x205F), (0x3000, 0x3000)]

/-- Whether a character is blank. -/
def isBlank (c : Char) : Bool := blankRanges.any fun (lo, hi) => lo ≤ c.toNat && c.toNat ≤ hi

/-- The text without blanks at its ends. -/
def trim (t : Text) : Text := trimWhile isBlank t

/-- Every character that ASCII counts as white space is blank. -/
theorem isBlank_of_isWhitespace {c : Char} (h : c.isWhitespace = true) : isBlank c = true := by
  simp only [Char.isWhitespace, Bool.or_eq_true, decide_eq_true_eq] at h
  rcases h with ((h | h) | h) | h <;> subst h <;> decide

/-- Twenty-five characters are blank. -/
example : (blankRanges.map fun (lo, hi) => hi - lo + 1).sum = 25 := by decide

end Text

end ContentMounts
