import DialogRules.Condition.Basic

/-!
# Writing a condition

A condition is written with one space between the terms of a level and
one between the parts of an atom, and with none inside the parentheses of
a group.
-/

namespace DialogRules

mutual

/-- The text of a condition. -/
def Condition.render : Condition → String
  | .atom a => a.render
  | .sequence terms => " ".intercalate (Term.renderList terms)

/-- The text of a term. -/
def Term.render : Term → String
  | .atom a => a.render
  | .connective c => c.text
  | .group inner => "(" ++ inner.render ++ ")"

/-- The texts of the terms of a level. -/
def Term.renderList : List Term → List String
  | [] => []
  | t :: ts => t.render :: Term.renderList ts

end

theorem Term.renderList_eq_map (ts : List Term) : Term.renderList ts = ts.map Term.render := by
  induction ts with
  | nil => rfl
  | cons t ts ih => rw [Term.renderList, ih, List.map_cons]

end DialogRules
