import DialogRules.Condition.Reading
import DialogRules.Layout.Basic
import DialogRules.Screen

/-!
# Checking a line

A line that passes the screen has its condition read. What fails next is
the answer: a condition that cannot be read, an element that the layout
does not have, an atom that does not keep to the vocabularies. If nothing
fails, the answer is the elements of the condition.

The advisories of the reading do not bear on the answer. They are kept
beside it for the log.
-/

namespace DialogRules

/-- What checking a line gives. -/
structure Verdict where
  /-- The elements of the condition, or why the line is refused. -/
  result : Except Refusal Elements
  /-- The advisories about the condition, if it could be read. -/
  advisories : List Advisory

namespace Layout

/-- Why a condition that was read is refused: an element that the layout
does not have, or else an atom at fault. -/
def fault? (layout : Layout) (condition : String) (es : Elements) : Option Refusal :=
  match layout.unknown es with
  | [] => Atom.fault? (Token.ofString condition)
  | names => some (.unknownElements names)

/-- Checks a line and keeps the advisories that came up. -/
def examine (layout : Layout) (line : String) : Verdict :=
  match Statement.screen line with
  | .error e => ⟨.error e, []⟩
  | .ok condition =>
    let reading := Condition.read condition
    match reading.result with
    | .error e => ⟨.error (.parse e), []⟩
    | .ok _ =>
      match layout.fault? condition reading.elements with
      | some e => ⟨.error e, reading.advisories⟩
      | none => ⟨.ok reading.elements, reading.advisories⟩

/-- Checks a line. The answer is the elements of its condition, or the
first check that fails. -/
def checkLine (layout : Layout) (line : String) : Except Refusal Elements :=
  (layout.examine line).result

end Layout

end DialogRules
