import DialogRules.Text.Blank
import DialogRules.Token

/-!
# Lexemes

A condition is cut from left to right into symbols, words and stray
characters. At each place the blanks are dropped first; then a symbol is
taken if one stands there, else a word as long as it goes, else the one
character, which is stray. Cutting never fails: what no rule matches is
kept as a stray character, so that a reader may pass over it and a
checker may refuse it.
-/

namespace DialogRules

/-- A piece of a condition: a token, or a character that belongs to
none. -/
inductive Lexeme where
  | token (token : Token)
  | stray (char : Char)
deriving DecidableEq

namespace Lexeme

/-- The symbols of the language. None of them begins another, so their
order does not matter. -/
def symbols : List String :=
  ["==", "!=", ">=", "<=", "(", ")", "&", "|", "+", ";"]

/-- The symbol that a text starts with, if there is one. -/
def symbol? (cs : List Char) : Option String :=
  symbols.find? fun s => s.toList.isPrefixOf cs

/-- The lexeme at the start of a text, given by its first character and
the others, and the text behind it. -/
def next (c : Char) (cs : List Char) : Lexeme × List Char :=
  match symbol? (c :: cs) with
  | some s => (.token ⟨s⟩, cs.drop (s.length - 1))
  | none =>
    if Text.isWordChar c then
      (.token ⟨String.ofList (c :: cs.takeWhile Text.isWordChar)⟩, cs.dropWhile Text.isWordChar)
    else (.stray c, cs)

/-- Every lexeme takes at least its first character. -/
theorem length_next_le (c : Char) (cs : List Char) : (next c cs).2.length ≤ cs.length := by
  rw [next]
  split
  · simp
  · split
    · exact (List.dropWhile_suffix _).length_le
    · exact Nat.le_refl _

/-- The lexemes of a text, from left to right. -/
def ofChars : List Char → List Lexeme
  | [] => []
  | c :: cs =>
    if Text.isBlank c then ofChars cs
    else (next c cs).1 :: ofChars (next c cs).2
termination_by cs => cs.length
decreasing_by
  · simp
  · exact Nat.lt_succ_of_le (length_next_le c cs)

/-- The lexemes of a text, from left to right. -/
def ofString (s : String) : List Lexeme := ofChars s.toList

/-- The token, if the lexeme is one. -/
def token? : Lexeme → Option Token
  | .token t => some t
  | .stray _ => none

/-- The characters of the lexeme. -/
def text : Lexeme → String
  | .token t => t.text
  | .stray c => String.singleton c

end Lexeme

/-- The tokens of a text, from left to right, without its stray
characters. -/
def Token.ofString (s : String) : List Token :=
  (Lexeme.ofString s).filterMap Lexeme.token?

end DialogRules
