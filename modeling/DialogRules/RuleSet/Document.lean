import DialogRules.Draft

/-!
# Compiling a document

Compiling never fails. A line that is no draft is passed over in silence,
and every draft adds what it stands for to the rule set. The advisories
about a draft are given whether or not its condition could be read, for
what was read before the failure.
-/

namespace DialogRules

namespace RuleSet

/-- The rule set that a document describes. -/
def ofDocument (document : String) : RuleSet :=
  (Draft.ofDocument document).foldl (fun rs d => rs ++ d.ruleSet) ∅

/-- The advisories about the atoms of a document, in order. -/
def advisories (document : String) : List Advisory :=
  (Draft.ofDocument document).flatMap fun d => d.reading.advisories

end RuleSet

end DialogRules
