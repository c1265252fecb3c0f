import DialogRules.Text.Blank
import DialogRules.Text.Pieces

/-!
# Lines

The pieces of a rule document between its newlines are numbered from one,
blank pieces included, and what is read is the non-blank ones, each
without the blanks around it. A carriage return is a blank, so a document
with either line ending gives the same lines.
-/

namespace DialogRules

/-- A non-blank line of a document, under its number in it. -/
structure Line where
  /-- The position in the document; the first line has number one. -/
  number : Nat
  /-- The line without the blanks around it. -/
  text : String
deriving DecidableEq

namespace Line

/-- The non-blank lines of a document, in order. -/
def ofDocument (document : String) : List Line :=
  ((Text.pieces document.toList).zipIdx 1).filterMap fun (piece, number) =>
    let text := Text.trim (String.ofList piece)
    if text = "" then none else some ⟨number, text⟩

end Line

end DialogRules
