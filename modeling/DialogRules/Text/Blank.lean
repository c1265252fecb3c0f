/-!
# Blanks

A blank is a character with the Unicode property White_Space. Blanks
separate the words of a rule and carry nothing else: a line is read
without the blanks around it, and a line of blanks alone is skipped.
Core's `Char.isWhitespace` knows four of the twenty-five, and every one
of those is a blank (`isBlank_of_isWhitespace`).
-/

namespace DialogRules

namespace Text

/-- The code points of White_Space, as closed ranges in increasing
order. -/
def blankRanges : List (Nat × Nat) :=
  [(0x09, 0x0d), (0x20, 0x20), (0x85, 0x85), (0xa0, 0xa0), (0x1680, 0x1680), (0x2000, 0x200a),
    (0x2028, 0x2029), (0x202f, 0x202f), (0x205f, 0x205f), (0x3000, 0x3000)]

/-- Whether a character is a blank. -/
def isBlank (c : Char) : Bool :=
  blankRanges.any fun range => range.1 ≤ c.toNat && c.toNat ≤ range.2

/-- The characters without the blanks before them. -/
def trimStart (cs : List Char) : List Char :=
  cs.dropWhile isBlank

/-- The characters without the blanks after them. -/
def trimEnd (cs : List Char) : List Char :=
  (cs.reverse.dropWhile isBlank).reverse

/-- A text without the blanks around it. -/
def trim (s : String) : String :=
  String.ofList (trimEnd (trimStart s.toList))

/-- What core calls white space is a blank. -/
theorem isBlank_of_isWhitespace {c : Char} (h : c.isWhitespace = true) : isBlank c = true := by
  simp only [Char.isWhitespace, Bool.or_eq_true, decide_eq_true_eq] at h
  rcases h with ((rfl | rfl) | rfl) | rfl <;> decide

/-- White_Space has twenty-five characters. -/
example : (blankRanges.map fun range => range.2 + 1 - range.1).sum = 25 := by decide

end Text

end DialogRules
