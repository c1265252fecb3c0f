import DialogRules.Atom

/-!
# What can be wrong with a condition

A condition can be at fault in two ways. A malformed atom is noticed and
kept: it gives an `Advisory`, which changes nothing else. A condition that
cannot be read at all gives a `ParseError`.
-/

namespace DialogRules

/-- An advisory about an atom that was kept as it was written. -/
inductive Advisory where
  | invalidOperator (subject operator : String)
  | invalidPredicate (subject predicate : String)
deriving DecidableEq

/-- The wording of an advisory. -/
def Advisory.message : Advisory → String
  | .invalidOperator subject operator =>
    "'" ++ operator ++ "' is not a valid operator for element '" ++ subject ++ "'"
  | .invalidPredicate subject predicate =>
    "'" ++ predicate ++ "' is not a valid property or number for element '" ++ subject ++ "'"

namespace Atom

/-- The advisories about an atom, the one about its operator first. -/
def advisories (a : Atom) : List Advisory :=
  (if a.compareOp?.isSome then [] else [.invalidOperator a.subject a.operator]) ++
    if a.predicate?.isSome then [] else [.invalidPredicate a.subject a.predicate]

/-- **An atom is well formed exactly when nothing is advised about
it.** -/
theorem advisories_eq_nil_iff {a : Atom} : a.advisories = [] ↔ a.isWellFormed = true := by
  simp [advisories, isWellFormed, Option.isSome_iff_ne_none]

end Atom

/-- Why a condition cannot be read. -/
inductive ParseError where
  /-- The condition ends inside an atom, of which only `found` is there. -/
  | truncated (found : List String)
  /-- More than `limit` groups stand inside each other. -/
  | tooDeep (limit : Nat)
deriving DecidableEq

/-- The wording of a failure to read. -/
def ParseError.message : ParseError → String
  | .truncated found =>
    "incomplete condition: expected '<element> <operator> <predicate>', found '" ++
      " ".intercalate found ++ "'"
  | .tooDeep limit => "parentheses nested deeper than " ++ toString limit ++ " levels"

end DialogRules
