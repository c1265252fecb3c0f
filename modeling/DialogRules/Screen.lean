import DialogRules.Lexeme
import DialogRules.Refusal
import DialogRules.Statement
import DialogRules.Text.Balance

/-!
# Checks that need no layout

A line is screened before its condition is read. It has to end a rule, to
be a statement and to name an action; then the condition is looked at
twice, as characters for the balance of its parentheses and as lexemes
for those that no condition may hold.

Reading a condition is lenient about its atoms, so there is a strict scan
beside it (`Atom.fault?`). It goes over the tokens on its own and takes
nothing from the reading.
-/

namespace DialogRules

namespace Lexeme

/-- Whether a condition may hold the lexeme: any token but the terminator
and those that stand for nothing. -/
def isAllowed : Lexeme → Bool
  | .stray _ => false
  | .token t =>
    match t.kind with
    | .terminator | .other => false
    | .word _ | .compare _ | .connective _ | .openParen | .closeParen => true

/-- The text of the first lexeme of a condition that it may not hold. -/
def disallowed? (condition : String) : Option String :=
  ((ofString condition).find? fun l => !l.isAllowed).map text

end Lexeme

/-- The condition of a line, if the line is a statement about an action
and there is nothing wrong with the characters and the lexemes of the
condition. -/
def Statement.screen (line : String) : Except Refusal String :=
  if (Text.trim line).toList.getLast? ≠ some terminator then
    .error .missingTerminator
  else
    match ofLine? line with
    | none => .error .malformedStatement
    | some ⟨action, condition⟩ =>
      if (Vocabulary.ofText? action : Option Action).isNone then
        .error (.unknownAction action)
      else if !Text.isBalanced condition then
        .error .unbalancedParentheses
      else
        match Lexeme.disallowed? condition with
        | some text => .error (.disallowedToken text)
        | none => .ok condition

/-- What is wrong with the first atom that is cut short or does not keep
to the vocabularies. A word outside an atom starts one, wherever it
stands; every other token outside an atom is passed over. -/
def Atom.fault? : List Token → Option Refusal
  | [] => none
  | token :: rest =>
    if token.isWord then
      match rest with
      | operator :: predicate :: rest =>
        if (Vocabulary.ofText? operator.text : Option CompareOp).isNone then
          some (.malformedAtom (.invalidOperator token.text operator.text))
        else if (Predicate.ofText? predicate.text).isNone then
          some (.malformedAtom (.invalidPredicate token.text predicate.text))
        else fault? rest
      | [] => some (.parse (.truncated [token.text]))
      | [operator] => some (.parse (.truncated [token.text, operator.text]))
    else fault? rest

end DialogRules
