import DialogRules.Text.Blank
import DialogRules.Text.Word
import DialogRules.Vocabulary

/-!
# Statements

A rule is written as a statement: a word, blanks, the reserved word,
blanks, a condition that is not blank, and a final semicolon; blanks
around the whole and around the condition do not count. A statement is
cut by its shape alone. Whether the word names an action and whether the
condition can be read are questions for later.
-/

namespace DialogRules

/-- The two halves of a line that has the shape of a rule. -/
structure Statement where
  /-- The word before the reserved word. -/
  action : String
  /-- The text between the reserved word and the final semicolon, without
  the blanks around it. -/
  condition : String
deriving DecidableEq

namespace Statement

/-- The character that ends a rule. -/
def terminator : Char := ';'

/-- The text before a final semicolon. -/
def unterminated? (cs : List Char) : Option (List Char) :=
  if cs.getLast? = some terminator then some cs.dropLast else none

/-- What stands behind at least one blank, and behind all blanks that
follow it. -/
def skipBlanks? (cs : List Char) : Option (List Char) :=
  if cs.head?.any Text.isBlank then some (Text.trimStart cs) else none

/-- What stands behind the reserved word. -/
def skipReserved? (cs : List Char) : Option (List Char) :=
  if ifWord.toList.isPrefixOf cs then some (cs.drop ifWord.length) else none

/-- The halves of a statement without its semicolon. -/
def ofBody? (cs : List Char) : Option Statement := do
  let action := cs.takeWhile Text.isWordChar
  let rest ← skipBlanks? (cs.dropWhile Text.isWordChar)
  let rest ← skipReserved? rest
  let rest ← skipBlanks? rest
  let condition := Text.trimEnd rest
  if action.isEmpty || condition.isEmpty then none
  else some ⟨String.ofList action, String.ofList condition⟩

/-- The halves of a line, if it is a statement. -/
def ofLine? (line : String) : Option Statement := do
  let body ← unterminated? (Text.trim line).toList
  ofBody? body

end Statement

end DialogRules
