import DialogRules.Advisory
import DialogRules.Line

/-!
# Why a document is refused

A line is refused for the first of the checks that it fails, and a
document for the first of its lines that is refused. An error has a
message and the messages of its causes, the nearest first: a condition
that could not be read is the cause of its line's error, which is the
cause of the document's.
-/

namespace DialogRules

/-- Why a line is refused, in the order of the checks. -/
inductive Refusal where
  | missingTerminator
  | malformedStatement
  | unknownAction (action : String)
  | unbalancedParentheses
  | disallowedToken (token : String)
  | parse (error : ParseError)
  | unknownElements (names : List String)
  | malformedAtom (advisory : Advisory)
deriving DecidableEq

namespace Refusal

/-- The wording of a refusal. -/
def message : Refusal → String
  | missingTerminator => "missing ';' at end of rule"
  | malformedStatement => "rule must have the form '<action> if <condition>;'"
  | unknownAction action => "unknown action '" ++ action ++ "'"
  | unbalancedParentheses => "unbalanced parentheses in condition"
  | disallowedToken token => "token '" ++ token ++ "' is not allowed in a condition"
  | parse error => "could not parse condition: " ++ error.message
  | unknownElements [name] => "element '" ++ name ++ "' does not exist"
  | unknownElements names => "elements '" ++ ", ".intercalate names ++ "' do not exist"
  | malformedAtom advisory => advisory.message

/-- The messages of the causes of a refusal, the nearest first. -/
def causes : Refusal → List String
  | parse error => [error.message]
  | _ => []

end Refusal

/-- The first line of a document that is refused. -/
structure RefusedLine where
  /-- The line. -/
  line : Line
  /-- Why it is refused. -/
  cause : Refusal
deriving DecidableEq

namespace RefusedLine

/-- The wording of the refusal of a document. -/
def message (e : RefusedLine) : String :=
  "line " ++ toString e.line.number ++ ": " ++ e.cause.message

/-- The messages of the causes of the refusal, the nearest first. -/
def causes (e : RefusedLine) : List String := e.cause.message :: e.cause.causes

end RefusedLine

end DialogRules
