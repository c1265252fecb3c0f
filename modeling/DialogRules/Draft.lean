import DialogRules.Condition.Reading
import DialogRules.Line
import DialogRules.RuleSet.Basic
import DialogRules.Statement

/-!
# Drafts

A draft is a line of a document that may become a rule: it is a statement
and names an action. Its condition is read on its own, and if that
succeeds the draft stands for its rule and the elements of its condition,
else for nothing.
-/

namespace DialogRules

/-- A line of a document that names an action, and what reading its
condition left. -/
structure Draft where
  /-- The line. -/
  line : Line
  /-- The action that the line names. -/
  action : Action
  /-- What reading the condition of the line left. -/
  reading : Reading

namespace Draft

/-- The draft of a line, if the line is a statement about an action. -/
def ofLine? (line : Line) : Option Draft := do
  let statement ← Statement.ofLine? line.text
  let action ← Vocabulary.ofText? statement.action
  some ⟨line, action, Condition.read statement.condition⟩

/-- The drafts of a document, in order. -/
def ofDocument (document : String) : List Draft :=
  (Line.ofDocument document).filterMap ofLine?

/-- What the draft adds to a rule set. -/
def ruleSet (d : Draft) : RuleSet :=
  match d.reading.result with
  | .ok condition => ⟨d.reading.elements, [⟨d.action, condition⟩], by simp⟩
  | .error _ => ∅

end Draft

end DialogRules
