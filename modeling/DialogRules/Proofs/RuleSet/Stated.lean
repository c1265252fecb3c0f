import DialogRules.Proofs.Row
import DialogRules.Proofs.RuleSet.Lookup
import DialogRules.Proofs.RuleSet.OfRules

/-!
# The rules that a document states

A line states a rule if it is a statement about an action and its
condition can be read (`Rule.ofLine?`); any other line states nothing,
whatever was read of it. A document is compiled to the rule set of the
rules that its lines state, in order
(`RuleSet.ofDocument_eq_ofRules_statedIn`), so all that the rule set holds
can be read off these rules: the condition of an action is that of the last
rule for it, the actions come in the order of their first rules, and the
elements are the subjects of all of them (`RuleSet.ofDocument_statedIn`).
-/

namespace DialogRules

/-- The rule that a draft was read as, if its condition could be read. -/
def Draft.rule? (d : Draft) : Option Rule :=
  match d.reading.result with
  | .ok condition => some ⟨d.action, condition⟩
  | .error _ => none

namespace Rule

/-- The rule that a line states, if it is a statement about an action and
its condition can be read. -/
def ofLine? (line : String) : Option Rule := do
  let statement ← Statement.ofLine? line
  let action ← Vocabulary.ofText? statement.action
  match (Condition.read statement.condition).result with
  | .ok condition => some ⟨action, condition⟩
  | .error _ => none

/-- The rules that the lines of a document state, in order. -/
def statedIn (document : String) : List Rule :=
  ((Line.ofDocument document).map Line.text).filterMap ofLine?

theorem ofLine?_trim (line : String) : ofLine? (Text.trim line) = ofLine? line := by
  rw [ofLine?, ofLine?, Statement.ofLine?_trim]

/-- A line states what its draft was read as. -/
theorem ofLine?_text (line : Line) :
    ofLine? line.text = (Draft.ofLine? line).bind Draft.rule? := by
  rw [ofLine?, Draft.ofLine?]
  cases Statement.ofLine? line.text with
  | none => rfl
  | some statement =>
    cases haction : (Vocabulary.ofText? statement.action : Option Action) with
    | none => simp [haction]
    | some a => simp [haction, Draft.rule?]

/-- The rules that the lines of some rows state are those that the rows
state. -/
theorem filterMap_ofRows (first : Nat) (rows : List String) :
    ((Line.ofRows first rows).map Line.text).filterMap ofLine? = rows.filterMap ofLine? := by
  induction rows generalizing first with
  | nil => rfl
  | cons row rows ih =>
    rw [Line.ofRows, List.filterMap_cons, ← ofLine?_trim row]
    split
    · rename_i hblank
      have hnone : ofLine? (Text.trim row) = none := by
        rw [hblank]
        rfl
      rw [hnone, ih]
    · rw [List.map_cons, List.filterMap_cons, ih]

theorem statedIn_eq (document : String) :
    statedIn document = (Text.rows document).filterMap ofLine? := by
  rw [statedIn, Line.ofDocument_eq_ofRows, filterMap_ofRows]

/-- Texts that are joined by newlines state what each states. -/
theorem statedIn_intercalate {texts : List String} (h : ∀ t ∈ texts, '\n' ∉ t.toList) :
    statedIn ("\n".intercalate texts) = texts.filterMap ofLine? := by
  cases texts with
  | nil => rfl
  | cons t texts => rw [statedIn_eq, Text.rows_intercalate (List.cons_ne_nil t texts) h]

/-- **A text that states nothing can be left out**: texts between those
that state a rule and all of them state the same rules. -/
theorem filterMap_ofLine?_of_sublist {texts kept : List String}
    (hkept : (texts.filter fun t => (ofLine? t).isSome).Sublist kept)
    (htexts : kept.Sublist texts) : kept.filterMap ofLine? = texts.filterMap ofLine? := by
  have hdrop : (fun t => if (ofLine? t).isSome then ofLine? t else none) = ofLine? := by
    funext t
    cases ofLine? t with
    | none => rfl
    | some r => rfl
  have hstating : (texts.filter fun t => (ofLine? t).isSome).filterMap ofLine? =
      texts.filterMap ofLine? := by
    rw [List.filterMap_filter, hdrop]
  have hfirst := hkept.filterMap ofLine?
  rw [hstating] at hfirst
  exact (htexts.filterMap ofLine?).antisymm hfirst

/-- What is last for an action is among the rules. -/
theorem mem_of_lastFor? {a : Action} {rules : List Rule} {r : Rule}
    (h : lastFor? a rules = some r) : r ∈ rules :=
  (List.mem_filter.1 (List.mem_of_getLast? h)).1

theorem mem_subjectsOf {rules : List Rule} {name : String} :
    name ∈ subjectsOf rules ↔ ∃ r ∈ rules, ∃ a ∈ r.condition.atoms, a.subject = name := by
  simp only [subjectsOf, List.mem_flatMap, List.mem_map]

end Rule

namespace RuleSet

/-! ## The rule set of some rules, looked up -/

/-- The rules of the rule set of some rules are the rules put in one by
one. -/
theorem rules_foldl_insert_single (rs : RuleSet) (rules : List Rule) :
    (rules.foldl (fun rs r => rs ++ single r) rs).rules = (rules.foldl insert rs).rules := by
  -- the two differ in their elements from the first step on
  have hplace : ∀ rs ss : RuleSet, rs.rules = ss.rules →
      (rules.foldl (fun rs r => rs ++ single r) rs).rules = (rules.foldl insert ss).rules := by
    induction rules with
    | nil => exact fun rs ss h => h
    | cons r rules ih =>
      intro rs ss h
      refine ih _ _ ?_
      rw [rules_append_single, h]
      rfl
  exact hplace rs rs rfl

/-- The actions come in the order of their first rules. -/
theorem actions_ofRules (rules : List Rule) :
    (ofRules rules).actions = (rules.map Rule.action).eraseDups := by
  have hactions := actions_foldl_insert ∅ rules
  rw [actions_empty, foldl_addLast_nil, actions, ← rules_foldl_insert_single] at hactions
  exact hactions

/-- The last rule for an action has its condition. -/
theorem get?_ofRules (rules : List Rule) (a : Action) :
    (ofRules rules).get? a = (Rule.lastFor? a rules).map Rule.condition := by
  have hget := get?_foldl_insert ∅ rules a
  rw [get?, ← rules_foldl_insert_single] at hget
  exact hget.trans Option.or_none

/-- A rule set of some rules holds no others. -/
theorem mem_of_mem_ofRules {rules : List Rule} {r : Rule} (h : r ∈ (ofRules rules).rules) :
    r ∈ rules := by
  have hget := get?_action h
  rw [get?_ofRules] at hget
  obtain ⟨s, hs, hcondition⟩ := Option.map_eq_some_iff.1 hget
  have haction : s.action = r.action := by
    simpa using (List.mem_filter.1 (List.mem_of_getLast? hs)).2
  have hsr : s = r := by
    cases s; cases r; cases haction; cases hcondition; rfl
  exact hsr ▸ Rule.mem_of_lastFor? hs

/-! ## What a document is compiled to -/

/-- A draft adds the rule that it was read as, and nothing if it could not
be read. -/
theorem ruleSet_of_draft {line : Line} {d : Draft} (h : Draft.ofLine? line = some d) :
    d.ruleSet = (d.rule?.map single).getD ∅ := by
  obtain ⟨-, condition, -, hreading⟩ := Draft.ofLine?_eq_some_iff.1 h
  rw [Draft.rule?]
  cases hresult : d.reading.result with
  | error e =>
    rw [Draft.ruleSet]
    simp only [hresult]
    rfl
  | ok c =>
    have hatoms : d.reading.atoms = c.atoms := by
      rw [hreading] at hresult ⊢
      exact (Condition.atoms_of_result hresult).symm
    exact Draft.ruleSet_eq_single hresult hatoms

/-- Lines are compiled to the rules that they state. -/
theorem compile_filterMap (rs : RuleSet) (lines : List Line) :
    rs.compile (lines.filterMap Draft.ofLine?) =
      ((lines.map Line.text).filterMap Rule.ofLine?).foldl (fun rs r => rs ++ single r) rs := by
  induction lines generalizing rs with
  | nil => rfl
  | cons line lines ih =>
    have hstated := Rule.ofLine?_text line
    rw [List.map_cons]
    cases hdraft : Draft.ofLine? line with
    | none =>
      rw [hdraft, Option.bind_none] at hstated
      rw [List.filterMap_cons_none hdraft, List.filterMap_cons_none hstated, ih]
    | some d =>
      rw [hdraft, Option.bind_some] at hstated
      have hstep : rs.compile (d :: lines.filterMap Draft.ofLine?) =
          (rs ++ d.ruleSet).compile (lines.filterMap Draft.ofLine?) := rfl
      rw [List.filterMap_cons_some hdraft, hstep, ih, ruleSet_of_draft hdraft]
      cases hrule : d.rule? with
      | none =>
        rw [List.filterMap_cons_none (hstated.trans hrule)]
        rfl
      | some r =>
        rw [List.filterMap_cons_some (hstated.trans hrule)]
        rfl

/-- **A document is compiled to the rules that it states.** -/
theorem ofDocument_eq_ofRules_statedIn (document : String) :
    ofDocument document = ofRules (Rule.statedIn document) :=
  compile_filterMap ∅ (Line.ofDocument document)

/-- Texts that are joined by newlines are compiled to what they state. -/
theorem ofDocument_intercalate {texts : List String} (h : ∀ t ∈ texts, '\n' ∉ t.toList) :
    ofDocument ("\n".intercalate texts) = ofRules (texts.filterMap Rule.ofLine?) := by
  rw [ofDocument_eq_ofRules_statedIn, Rule.statedIn_intercalate h]

/-- **A compiled rule set is what the lines state**, and nothing else. No
action has two rules. Its condition is that of the last rule stated for it,
and the actions come in the order of the first. The elements are the
subjects of all the rules stated, the replaced ones included, in the order
of first occurrence, so no rule asks about anything else. Rows that state
nothing can be taken out of the document, all of them or some, and the rule
set is the same. -/
theorem ofDocument_statedIn (document : String) :
    (ofDocument document).actions.Nodup ∧
      (∀ a, (ofDocument document).get? a =
        (Rule.lastFor? a (Rule.statedIn document)).map Rule.condition) ∧
      (ofDocument document).actions = ((Rule.statedIn document).map Rule.action).eraseDups ∧
      (ofDocument document).elements.names =
        (Rule.subjectsOf (Rule.statedIn document)).eraseDups ∧
      (∀ r ∈ (ofDocument document).rules, ∀ a ∈ r.condition.atoms,
        a.subject ∈ (ofDocument document).elements) ∧
      ∀ kept : List String,
        ((Text.rows document).filter fun row => (Rule.ofLine? row).isSome).Sublist kept →
        kept.Sublist (Text.rows document) →
        ofDocument ("\n".intercalate kept) = ofDocument document := by
  have hrules := ofDocument_eq_ofRules_statedIn document
  refine ⟨(ofDocument document).nodup, fun a => ?_, ?_, ?_, fun r hr a ha => ?_,
    fun kept hkept hrows => ?_⟩
  · rw [hrules, get?_ofRules]
  · rw [hrules, actions_ofRules]
  · rw [hrules, elements_ofRules, Elements.names_ofList]
  · rw [hrules] at hr
    rw [hrules, elements_ofRules, Elements.mem_ofList, Rule.mem_subjectsOf]
    exact ⟨r, mem_of_mem_ofRules hr, a, ha, rfl⟩
  · rw [ofDocument_intercalate fun t ht => Text.not_mem_of_mem_rows (hrows.subset ht), hrules,
      Rule.statedIn_eq, Rule.filterMap_ofLine?_of_sublist hkept hrows]

/-- The first row breaks off behind an atom and states nothing, so it can be
left out. The third replaces the second, whose element stays. -/
theorem ofDocument_statedIn_replaced :
    (ofDocument "show if A == 1 & B;\nshow if C == 2;\nshow if D == 3;").get? .reveal =
        some (.atom ⟨"D", "==", "3"⟩) ∧
      (ofDocument "show if A == 1 & B;\nshow if C == 2;\nshow if D == 3;").elements.names =
        ["C", "D"] ∧
      ⟨.reveal, .atom ⟨"D", "==", "3"⟩⟩ ∈
        (ofDocument "show if A == 1 & B;\nshow if C == 2;\nshow if D == 3;").rules ∧
      "D" ∈ (ofDocument "show if A == 1 & B;\nshow if C == 2;\nshow if D == 3;").elements ∧
      ((Text.rows "show if A == 1 & B;\nshow if C == 2;\nshow if D == 3;").filter
        fun row => (Rule.ofLine? row).isSome) = ["show if C == 2;", "show if D == 3;"] ∧
      ofDocument ("\n".intercalate ["show if C == 2;", "show if D == 3;"]) =
        ofDocument "show if A == 1 & B;\nshow if C == 2;\nshow if D == 3;" := by
  obtain ⟨-, hget, -, helements, hsubjects, hkept⟩ :=
    ofDocument_statedIn "show if A == 1 & B;\nshow if C == 2;\nshow if D == 3;"
  have hstated : Rule.statedIn "show if A == 1 & B;\nshow if C == 2;\nshow if D == 3;" =
      [⟨.reveal, .atom ⟨"C", "==", "2"⟩⟩, ⟨.reveal, .atom ⟨"D", "==", "3"⟩⟩] := by
    decide +kernel
  have hrule : ⟨.reveal, .atom ⟨"D", "==", "3"⟩⟩ ∈
      (ofDocument "show if A == 1 & B;\nshow if C == 2;\nshow if D == 3;").rules := by
    decide +kernel
  have hrows : ((Text.rows "show if A == 1 & B;\nshow if C == 2;\nshow if D == 3;").filter
      fun row => (Rule.ofLine? row).isSome) = ["show if C == 2;", "show if D == 3;"] := by
    decide +kernel
  refine ⟨?_, ?_, hrule, hsubjects _ hrule ⟨"D", "==", "3"⟩ (by decide), hrows, ?_⟩
  · rw [hget, hstated]
    decide
  · rw [helements, hstated]
    decide
  · refine hkept _ ?_ ?_
    · rw [hrows]
    · rw [← hrows]
      exact List.filter_sublist

end RuleSet

end DialogRules
