/-!
# Words

A word is a non-empty run of ASCII letters, ASCII digits and underscores.
Element names, action names, property names and numbers are all words. A
numeral is a word of digits alone: the language has no signs, points or
exponents.
-/

namespace DialogRules

namespace Text

/-- Whether a character may stand in a word. Letters and digits are the
ASCII ones only. -/
def isWordChar (c : Char) : Bool :=
  c.isAlphanum || c == '_'

/-- Whether a text is a word. -/
def isWord (s : String) : Bool :=
  !s.toList.isEmpty && s.toList.all isWordChar

/-- Whether a text is a non-empty run of ASCII digits. -/
def isNumeral (s : String) : Bool :=
  !s.toList.isEmpty && s.toList.all Char.isDigit

theorem isWordChar_of_isDigit {c : Char} (h : c.isDigit = true) : isWordChar c = true := by
  simp [isWordChar, Char.isAlphanum, h]

/-- Every numeral is a word. -/
theorem isWord_of_isNumeral {s : String} (h : isNumeral s = true) : isWord s = true := by
  simp only [isNumeral, isWord, Bool.and_eq_true, List.all_eq_true] at h ⊢
  exact ⟨h.1, fun c hc => isWordChar_of_isDigit (h.2 c hc)⟩

end Text

end DialogRules
