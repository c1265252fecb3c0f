import DialogRules.Layout.Load

/-!
# The log

Compiling and checking leave a log beside their answer. Compiling warns
of every advisory and of every draft that adds no rule, and closes with the
size of the result. Checking a line notes the advisories about its condition
if that could be read, and checking a document notes the line that was
refused. A load logs the check and then, if the check passed, the
compilation.
-/

namespace DialogRules

/-- How much an event matters. -/
inductive Severity where
  | debug
  | warn
deriving DecidableEq

/-- What is worth a note while a document is compiled or checked. -/
inductive Event where
  /-- An atom was compiled as it was written. -/
  | warned (advisory : Advisory)
  /-- A line was passed over because its condition could not be read. -/
  | skipped (line : String) (error : ParseError)
  /-- A document was compiled. -/
  | compiled (rules elements : Nat)
  /-- An atom of a line that is being checked is malformed. -/
  | noted (advisory : Advisory)
  /-- A line was refused. -/
  | refused (line : Nat) (cause : Refusal)
deriving DecidableEq

/-- The value of a field of an event. -/
inductive Event.Value where
  | text (text : String)
  | number (number : Nat)
deriving DecidableEq

namespace Event

/-- How much the event matters. -/
def severity : Event → Severity
  | warned _ | skipped _ _ => .warn
  | compiled _ _ | noted _ | refused _ _ => .debug

/-- The wording of the event. -/
def message : Event → String
  | warned advisory => advisory.message
  | skipped _ _ => "skipping rule with unparsable condition"
  | compiled _ _ => "compiled rule set"
  | noted _ => "advisory from condition parse"
  | refused _ _ => "rejected rule line"

/-- The named particulars of the event. -/
def fields : Event → List (String × Value)
  | warned (.invalidOperator subject operator) =>
    [("subject", .text subject), ("operator", .text operator)]
  | warned (.invalidPredicate subject predicate) =>
    [("subject", .text subject), ("predicate", .text predicate)]
  | skipped line error => [("line", .text line), ("error", .text error.message)]
  | compiled rules elements => [("rules", .number rules), ("elements", .number elements)]
  | noted advisory => [("diagnostic", .text advisory.message)]
  | refused line cause => [("line", .number line), ("source", .text cause.message)]

end Event

/-- The text of a severity. -/
def Severity.text : Severity → String
  | .debug => "DEBUG"
  | .warn => "WARN"

/-- What compiling a draft logs. -/
def Draft.log (d : Draft) : List Event :=
  d.reading.advisories.map .warned ++
    match d.reading.result with
    | .ok _ => []
    | .error e => [.skipped d.line.text e]

/-- What compiling a document logs. -/
def RuleSet.log (document : String) : List Event :=
  let rs := RuleSet.ofDocument document
  (Draft.ofDocument document).flatMap Draft.log ++ [.compiled rs.size rs.elements.size]

namespace Layout

/-- What checking a line logs. -/
def lineLog (layout : Layout) (line : String) : List Event :=
  (layout.examine line).advisories.map .noted

/-- What checking lines in turn logs. -/
def linesLog (layout : Layout) : List Line → List Event
  | [] => []
  | line :: lines =>
    layout.lineLog line.text ++
      match layout.checkLine line.text with
      | .ok _ => layout.linesLog lines
      | .error e => [.refused line.number e]

/-- What checking a document logs. -/
def log (layout : Layout) (document : String) : List Event :=
  layout.linesLog (Line.ofDocument document)

/-- What loading a document logs. -/
def loadLog (layout : Layout) (document : String) : List Event :=
  layout.log document ++
    match layout.check document with
    | .ok _ => RuleSet.log document
    | .error _ => []

end Layout

end DialogRules
