import DialogRules.Layout.Document
import DialogRules.RuleSet.Document

/-!
# Loading a document

A rule set is loaded in one of two ways. A layout checks a document first
and compiles it only if no line is refused. A file is compiled as it is,
and all that can fail is getting a document out of it.
-/

namespace DialogRules

/-- Why a file gives no document. -/
inductive FileError where
  | notFound
  | notUtf8
deriving DecidableEq

/-- The wording of a failure to get a document from a file. -/
def FileError.message : FileError → String
  | .notFound => "No such file or directory (os error 2)"
  | .notUtf8 => "stream did not contain valid UTF-8"

/-- Why no rule set was loaded. -/
inductive LoadError where
  | refused (error : RefusedLine)
  | unreadable (error : FileError)
deriving DecidableEq

namespace LoadError

/-- The wording of a failure to load. -/
def message : LoadError → String
  | refused error => error.message
  | unreadable error => error.message

/-- The messages of the causes of a failure to load, the nearest
first. -/
def causes : LoadError → List String
  | refused error => error.causes
  | unreadable _ => []

end LoadError

namespace Layout

/-- Checks a document and compiles it. -/
def load (layout : Layout) (document : String) : Except LoadError RuleSet :=
  match layout.check document with
  | .ok _ => .ok (RuleSet.ofDocument document)
  | .error e => .error (.refused e)

end Layout

namespace RuleSet

/-- Compiles the document in a file, given by the bytes of the file if
there is one. The bytes have to be UTF-8; a byte order mark is a
character like any other. -/
def ofFile (contents : Option ByteArray) : Except LoadError RuleSet :=
  match contents with
  | none => .error (.unreadable .notFound)
  | some bytes =>
    match String.fromUTF8? bytes with
    | none => .error (.unreadable .notUtf8)
    | some document => .ok (ofDocument document)

end RuleSet

end DialogRules
