import DialogRules.Condition.Render

/-!
# Rules

A rule is an action and the condition under which it is taken.
-/

namespace DialogRules

/-- An action and the condition under which it is taken. -/
structure Rule where
  /-- What the rule does. -/
  action : Action
  /-- When the rule does it. -/
  condition : Condition
deriving DecidableEq

/-- The statement that a rule is written as. -/
def Rule.render (r : Rule) : String :=
  r.action.text ++ " " ++ ifWord ++ " " ++ r.condition.render ++ ";"

end DialogRules
