/-!
# Balanced parentheses

Parentheses are balanced when, read from left to right, no closing one
comes before the one it closes and none is left open at the end. They are
counted as characters, whatever they stand for.
-/

namespace DialogRules

namespace Text

/-- Whether the parentheses are balanced when `depth` of them are open at
the start. -/
def isBalancedFrom : Nat → List Char → Bool
  | depth, [] => depth == 0
  | depth, '(' :: cs => isBalancedFrom (depth + 1) cs
  | 0, ')' :: _ => false
  | depth + 1, ')' :: cs => isBalancedFrom depth cs
  | depth, _ :: cs => isBalancedFrom depth cs

/-- Whether the parentheses of a text are balanced. -/
def isBalanced (s : String) : Bool := isBalancedFrom 0 s.toList

end Text

end DialogRules
