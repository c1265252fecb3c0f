import DialogRules.Layout.Check

/-!
# Checking a document

The non-blank lines of a document are checked in turn, up to the first
that is refused. If none is, the answer is the elements of them all.
-/

namespace DialogRules

namespace Layout

/-- Checks lines in turn, up to the first that is refused. -/
def checkLines (layout : Layout) : List Line → Except RefusedLine Elements
  | [] => .ok ∅
  | line :: lines =>
    match layout.checkLine line.text with
    | .error e => .error ⟨line, e⟩
    | .ok es => (layout.checkLines lines).map (es ++ ·)

/-- Checks a document. The answer is the elements of its conditions, or
its first line that is refused. -/
def check (layout : Layout) (document : String) : Except RefusedLine Elements :=
  layout.checkLines (Line.ofDocument document)

end Layout

end DialogRules
