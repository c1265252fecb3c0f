import DialogRules.Proofs.RuleSet.Stated

/-!
# Documents behind each other

Compiling is a homomorphism. When a document is put behind another and a
newline, the rules that it states come behind those of the other, so its
rule set is put behind that of the other
(`RuleSet.ofDocument_append_newline`), although the rules that were
replaced in it are gone by then: the rule that replaced them would replace
whatever they replace. As rule sets may be put behind each other in any
grouping, a document can be cut at any newlines and compiled in parts
(`RuleSet.ofDocument_joined`).
-/

namespace DialogRules

namespace Draft

/-- The draft on a line whose number is greater by `n`. -/
def later (n : Nat) (d : Draft) : Draft := { d with line := d.line.later n }

@[simp] theorem later_reading (n : Nat) (d : Draft) : (d.later n).reading = d.reading := rfl

theorem ofLine?_later (n : Nat) (line : Line) :
    ofLine? (line.later n) = (ofLine? line).map (later n) := by
  rw [ofLine?, ofLine?, Line.later_text]
  cases Statement.ofLine? line.text with
  | none => rfl
  | some statement =>
    cases haction : (Vocabulary.ofText? statement.action : Option Action) with
    | none => simp [haction]
    | some a => simp [haction, later]

/-- The drafts of a document behind another are those that it has on its
own, on later lines. -/
theorem ofDocument_append_newline (d e : String) :
    ofDocument (d ++ "\n" ++ e) =
      ofDocument d ++ (ofDocument e).map (later (d.toList.count '\n' + 1)) := by
  have hlater : ofLine? ∘ Line.later (d.toList.count '\n' + 1) =
      fun line => (ofLine? line).map (later (d.toList.count '\n' + 1)) :=
    funext fun line => ofLine?_later _ line
  rw [ofDocument, Line.ofDocument_append_newline, List.filterMap_append, List.filterMap_map,
    hlater, ← List.map_filterMap]
  rfl

end Draft

namespace RuleSet

/-! ## Rules behind each other -/

/-- Rules that are put behind a rule set one by one can be put together
first. -/
theorem foldl_single_eq_append (rs : RuleSet) (rules : List Rule) :
    rules.foldl (fun rs r => rs ++ single r) rs = rs ++ ofRules rules := by
  induction rules generalizing rs with
  | nil => rfl
  | cons r rules ih =>
    have hfirst : ofRules (r :: rules) = single r ++ ofRules rules := by
      rw [ofRules, List.foldl_cons, ih, empty_append]
    rw [List.foldl_cons, ih, hfirst, append_assoc]

theorem ofRules_append (xs ys : List Rule) : ofRules (xs ++ ys) = ofRules xs ++ ofRules ys := by
  rw [ofRules, List.foldl_append, foldl_single_eq_append, ← ofRules]

/-! ## Documents behind each other -/

theorem ofDocument_append_newline (d e : String) :
    ofDocument (d ++ "\n" ++ e) = ofDocument d ++ ofDocument e := by
  simp only [ofDocument_eq_ofRules_statedIn, Rule.statedIn_eq, Text.rows_append_newline,
    List.filterMap_append, ofRules_append]

/-- Advisories do not depend on the numbers of the lines. -/
theorem advisories_append_newline (d e : String) :
    advisories (d ++ "\n" ++ e) = advisories d ++ advisories e := by
  simp only [advisories, Draft.ofDocument_append_newline, List.flatMap_append, List.flatMap_map,
    Draft.later_reading]

/-- **Compiling is a homomorphism.** A document behind another is compiled to
the advisories of both in order, the elements of the first extended by
those of the second, and the rules of the second put into those of the
first one by one: an action that the first has keeps its place, with the
condition of the second if there is one, and the other rules of the second
follow in their order. This operation is associative, so a document can be
cut at any newlines, compiled in parts and put together. -/
theorem ofDocument_joined :
    (∀ d e : String,
      advisories (d ++ "\n" ++ e) = advisories d ++ advisories e ∧
        (ofDocument (d ++ "\n" ++ e)).elements =
          (ofDocument d).elements ++ (ofDocument e).elements ∧
        (ofDocument (d ++ "\n" ++ e)).rules =
          ((ofDocument e).rules.foldl insert (ofDocument d)).rules ∧
        (ofDocument (d ++ "\n" ++ e)).rules =
          ((ofDocument d).rules.map fun r =>
            ⟨r.action, ((ofDocument e).get? r.action).getD r.condition⟩) ++
          (ofDocument e).rules.filter fun r => r.action ∉ (ofDocument d).actions) ∧
      (∀ rs ss ts : RuleSet, rs ++ ss ++ ts = rs ++ (ss ++ ts)) ∧
      ∀ documents : List String,
        ofDocument ("\n".intercalate documents) =
            (documents.map ofDocument).foldr (fun rs ss => rs ++ ss) ∅ ∧
          advisories ("\n".intercalate documents) = documents.flatMap advisories := by
  refine ⟨fun d e => ⟨advisories_append_newline d e, ?_, ?_, ?_⟩, append_assoc, fun documents => ?_⟩
  · rw [ofDocument_append_newline]
    rfl
  · rw [ofDocument_append_newline]
    rfl
  · rw [ofDocument_append_newline, rules_append]
  · induction documents with
    | nil => exact ⟨rfl, rfl⟩
    | cons d documents ih =>
      cases documents with
      | nil => simp
      | cons e documents =>
        obtain ⟨hrules, hadvisories⟩ := ih
        rw [String.intercalate_cons_cons, ofDocument_append_newline, hrules,
          advisories_append_newline, hadvisories]
        exact ⟨rfl, rfl⟩

end RuleSet

end DialogRules
