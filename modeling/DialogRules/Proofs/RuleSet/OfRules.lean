import DialogRules.Proofs.Draft

/-!
# The rule set of some rules

A rule on its own is a rule set with the elements that it asks about, and
some rules are put together into one by extending (`RuleSet.ofRules`). No
rule takes the place of another if their actions are distinct, so the
rules come out as they went in (`rules_ofRules`), with the subjects of
their atoms for elements (`elements_ofRules`). What drafts are compiled to
is of this kind (`ofDocument_eq_ofRules`).
-/

namespace DialogRules

namespace Rule

/-- The subjects of the atoms of some rules, in order. -/
def subjectsOf (rules : List Rule) : List String :=
  rules.flatMap fun r => r.condition.atoms.map Atom.subject

/-- The advisories about the atoms of some rules, in order. -/
def advisoriesOf (rules : List Rule) : List Advisory :=
  rules.flatMap fun r => r.condition.atoms.flatMap Atom.advisories

@[simp] theorem subjectsOf_cons (r : Rule) (rules : List Rule) :
    subjectsOf (r :: rules) = r.condition.atoms.map Atom.subject ++ subjectsOf rules := rfl

@[simp] theorem advisoriesOf_cons (r : Rule) (rules : List Rule) :
    advisoriesOf (r :: rules) =
      r.condition.atoms.flatMap Atom.advisories ++ advisoriesOf rules := rfl

end Rule

namespace RuleSet

/-- The rule set of one rule, with the elements that it asks about. -/
def single (r : Rule) : RuleSet := ⟨r.condition.elements, [r], by simp⟩

/-- The rule set of some rules, one put behind another. -/
def ofRules (rules : List Rule) : RuleSet :=
  rules.foldl (fun rs r => rs ++ single r) ∅

variable {rs : RuleSet} {rules : List Rule}

/-- A rule for a new action goes last. -/
theorem place_of_not_mem {r : Rule} (h : r.action ∉ rules.map Rule.action) :
    place r rules = rules ++ [r] := by
  induction rules with
  | nil => rfl
  | cons s rules ih =>
    obtain ⟨hne, hrest⟩ := not_or.1 fun hmem => h (List.mem_cons.2 hmem)
    have hne' : s.action ≠ r.action := fun he => hne he.symm
    rw [place, if_neg hne', ih hrest, List.cons_append]

theorem rules_append_single (rs : RuleSet) (r : Rule) :
    (rs ++ single r).rules = place r rs.rules := rfl

/-- Rules for distinct new actions go behind the rules that are there. -/
theorem rules_foldl_single (h : ((rs.rules ++ rules).map Rule.action).Nodup) :
    (rules.foldl (fun rs r => rs ++ single r) rs).rules = rs.rules ++ rules := by
  induction rules generalizing rs with
  | nil => exact (List.append_nil rs.rules).symm
  | cons r rules ih =>
    have hnew : r.action ∉ rs.rules.map Rule.action := by
      rw [List.map_append, List.map_cons] at h
      intro hmem
      exact (List.nodup_append.1 h).2.2 _ hmem _ List.mem_cons_self rfl
    have hrules : (rs ++ single r).rules = rs.rules ++ [r] := by
      rw [rules_append_single, place_of_not_mem hnew]
    rw [List.foldl_cons, ih, hrules, List.append_assoc, List.singleton_append]
    rwa [hrules, List.append_assoc, List.singleton_append]

/-- Whatever becomes of the rules, their subjects are added. -/
theorem elements_foldl_single (rs : RuleSet) (rules : List Rule) :
    (rules.foldl (fun rs r => rs ++ single r) rs).elements =
      rs.elements ++ Elements.ofList (Rule.subjectsOf rules) := by
  induction rules generalizing rs with
  | nil => exact (Elements.append_empty rs.elements).symm
  | cons r rules ih =>
    have hsingle : (single r).elements =
        Elements.ofList (r.condition.atoms.map Atom.subject) := rfl
    rw [List.foldl_cons, ih, elements_append, Rule.subjectsOf_cons, Elements.ofList_append,
      hsingle, Elements.extend_assoc]

/-- **Rules with distinct actions are kept as they are.** -/
theorem rules_ofRules (h : (rules.map Rule.action).Nodup) : (ofRules rules).rules = rules :=
  rules_foldl_single (by simpa using h)

/-- **The elements of some rules** are the subjects of their atoms. -/
theorem elements_ofRules (rules : List Rule) :
    (ofRules rules).elements = Elements.ofList (Rule.subjectsOf rules) := by
  rw [ofRules, elements_foldl_single, elements_empty, Elements.empty_append]

/-- A document whose drafts stand for some rules is compiled to the rule
set of these. -/
theorem ofDocument_eq_ofRules {document : String}
    (h : (Draft.ofDocument document).map Draft.ruleSet = rules.map single) :
    ofDocument document = ofRules rules := by
  have hfold := congrArg (fun sets => sets.foldl (fun rs ss => rs ++ ss) (∅ : RuleSet)) h
  simp only [List.foldl_map] at hfold
  exact hfold

end RuleSet

/-- What a draft was read as, if its atoms are those of the condition, is
the rule set of one rule. -/
theorem Draft.ruleSet_eq_single {d : Draft} {c : Condition} (hresult : d.reading.result = .ok c)
    (hatoms : d.reading.atoms = c.atoms) : d.ruleSet = RuleSet.single ⟨d.action, c⟩ := by
  refine RuleSet.ext ?_ ?_
  · rw [elements_ruleSet hresult, Reading.elements, Reading.subjects, hatoms]
    rfl
  · rw [ruleSet]
    simp only [hresult]
    rfl

end DialogRules
