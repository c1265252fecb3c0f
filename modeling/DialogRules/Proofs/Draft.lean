import DialogRules.Proofs.Condition.Atoms
import DialogRules.Proofs.Elements
import DialogRules.Proofs.RuleSet.Basic
import DialogRules.RuleSet.Document

/-!
# The drafts of a document

A draft is a line with its action and the reading of its condition
(`Draft.ofLine?_eq_some_iff`). A rule set is compiled from drafts one
after another, so what it holds is traced back to them: its elements are
those of the drafts in order (`elements_ofDocument`), each of its rules
is what some draft was read as (`exists_draft_of_mem_rules`), and the
actions that have a rule are those of the drafts that were read
(`mem_actions_ofDocument`).
-/

namespace DialogRules

namespace Line

/-- The word that names the action of a line, if the line is a
statement. -/
def action? (line : Line) : Option String :=
  (Statement.ofLine? line.text).map Statement.action

/-- The subjects of the atoms in the condition of a line, if it is a
statement. -/
def subjects (line : Line) : List String :=
  match Statement.ofLine? line.text with
  | some statement => (Condition.read statement.condition).subjects
  | none => []

end Line

namespace Draft

variable {d : Draft}

/-- **What a draft is of its line.** -/
theorem ofLine?_eq_some_iff {line : Line} :
    ofLine? line = some d ↔ d.line = line ∧ ∃ condition,
      Statement.ofLine? line.text = some ⟨d.action.text, condition⟩ ∧
        d.reading = Condition.read condition := by
  constructor
  · intro h
    obtain ⟨⟨action, condition⟩, hstatement, h⟩ := Option.bind_eq_some_iff.1 h
    obtain ⟨a, ha, h⟩ := Option.bind_eq_some_iff.1 h
    have htext : a.text = action := Vocabulary.ofText?_eq_some_iff.1 ha
    cases h
    exact ⟨rfl, condition, htext ▸ hstatement, rfl⟩
  · rintro ⟨hline, condition, hstatement, hreading⟩
    have haction : (Vocabulary.ofText? d.action.text : Option Action) = some d.action :=
      Vocabulary.ofText?_text d.action
    obtain ⟨dline, action, reading⟩ := d
    subst hline hreading
    simp [ofLine?, hstatement, haction]

/-- The drafts of a document are about its lines. -/
theorem of_mem_ofDocument {document : String} (h : d ∈ ofDocument document) :
    d.line ∈ Line.ofDocument document ∧ ∃ condition,
      Statement.ofLine? d.line.text = some ⟨d.action.text, condition⟩ ∧
        d.reading = Condition.read condition := by
  obtain ⟨line, hline, hd⟩ := List.mem_filterMap.1 h
  obtain ⟨rfl, hstatement⟩ := ofLine?_eq_some_iff.1 hd
  exact ⟨hline, hstatement⟩

/-- A draft names the action of its line, and was read from the condition
of its line. -/
theorem action?_line {document : String} (h : d ∈ ofDocument document) :
    d.line.action? = some d.action.text := by
  obtain ⟨-, condition, hstatement, -⟩ := of_mem_ofDocument h
  rw [Line.action?, hstatement]
  rfl

theorem subjects_line {document : String} (h : d ∈ ofDocument document) :
    d.line.subjects = d.reading.subjects := by
  obtain ⟨-, condition, hstatement, hreading⟩ := of_mem_ofDocument h
  rw [Line.subjects, hstatement, hreading]

/-- A draft names the action of its line's statement. -/
theorem action_eq_of_mem_ofDocument {document condition : String} {a : Action}
    (h : d ∈ ofDocument document)
    (hstatement : Statement.ofLine? d.line.text = some ⟨a.text, condition⟩) : d.action = a := by
  obtain ⟨-, condition', hd, -⟩ := of_mem_ofDocument h
  rw [hstatement] at hd
  have htext : a.text = d.action.text := congrArg Statement.action (Option.some.inj hd)
  exact (Vocabulary.text_inj a d.action htext).symm

/-- A draft stands for the rule that it was read as. -/
theorem mem_rules_ruleSet {r : Rule} :
    r ∈ d.ruleSet.rules ↔ d.action = r.action ∧ d.reading.result = .ok r.condition := by
  obtain ⟨action, condition⟩ := r
  rw [ruleSet]
  cases d.reading.result with
  | error e => simp
  | ok c => simp [eq_comm]

/-- A draft has a rule for its action if it was read. -/
theorem mem_actions_ruleSet {a : Action} :
    a ∈ d.ruleSet.actions ↔ d.action = a ∧ ∃ c, d.reading.result = .ok c := by
  rw [RuleSet.actions, List.mem_map]
  constructor
  · rintro ⟨r, hr, rfl⟩
    obtain ⟨haction, hresult⟩ := mem_rules_ruleSet.1 hr
    exact ⟨haction, r.condition, hresult⟩
  · rintro ⟨haction, c, hresult⟩
    exact ⟨⟨a, c⟩, mem_rules_ruleSet.2 ⟨haction, hresult⟩, rfl⟩

theorem actions_ruleSet {c : Condition} (h : d.reading.result = .ok c) :
    d.ruleSet.actions = [d.action] := by
  rw [ruleSet]
  simp only [h]
  rfl

theorem elements_ruleSet {c : Condition} (h : d.reading.result = .ok c) :
    d.ruleSet.elements = d.reading.elements := by
  rw [ruleSet]
  simp only [h]

/-- What the drafts add to the elements, in order. -/
def elementsOf : List Draft → Elements
  | [] => ∅
  | d :: ds => d.ruleSet.elements ++ elementsOf ds

theorem mem_elementsOf {ds : List Draft} {name : String} :
    name ∈ elementsOf ds ↔ ∃ d ∈ ds, name ∈ d.ruleSet.elements := by
  induction ds with
  | nil => simp [elementsOf, Elements.not_mem_empty]
  | cons d ds ih =>
    rw [elementsOf, Elements.mem_append, ih]
    simp only [List.mem_cons, exists_eq_or_imp]

/-- Drafts that were read have rules for their actions. -/
theorem flatMap_actions_ruleSet {ds : List Draft} (h : ∀ d ∈ ds, ∃ c, d.reading.result = .ok c) :
    (ds.flatMap fun d => d.ruleSet.actions) = ds.map Draft.action := by
  induction ds with
  | nil => rfl
  | cons d ds ih =>
    obtain ⟨⟨c, hc⟩, hds⟩ := List.forall_mem_cons.1 h
    rw [List.flatMap_cons, actions_ruleSet hc, ih hds, List.map_cons, List.singleton_append]

/-- Their elements are the subjects of their conditions. -/
theorem elementsOf_eq_ofList {ds : List Draft} (h : ∀ d ∈ ds, ∃ c, d.reading.result = .ok c) :
    elementsOf ds = Elements.ofList (ds.flatMap fun d => d.reading.subjects) := by
  induction ds with
  | nil => rfl
  | cons d ds ih =>
    obtain ⟨⟨c, hc⟩, hds⟩ := List.forall_mem_cons.1 h
    rw [elementsOf, elements_ruleSet hc, ih hds, List.flatMap_cons, Elements.ofList_append,
      Reading.elements]

end Draft

namespace RuleSet

/-- Drafts are put behind a rule set one after another. -/
def compile (rs : RuleSet) (ds : List Draft) : RuleSet :=
  ds.foldl (fun rs d => rs ++ d.ruleSet) rs

theorem ofDocument_eq_compile (document : String) :
    ofDocument document = compile ∅ (Draft.ofDocument document) := rfl

variable {rs : RuleSet} {ds : List Draft} {document : String}

theorem elements_compile (rs : RuleSet) (ds : List Draft) :
    (rs.compile ds).elements = rs.elements ++ Draft.elementsOf ds := by
  induction ds generalizing rs with
  | nil => exact (Elements.append_empty rs.elements).symm
  | cons d ds ih =>
    -- compiling adds from the left, and the drafts are summed up from the right
    have hstep : rs.compile (d :: ds) = (rs ++ d.ruleSet).compile ds := rfl
    rw [hstep, ih, elements_append, Elements.extend_assoc, Draft.elementsOf]

theorem mem_rules_compile {r : Rule} (h : r ∈ (rs.compile ds).rules) :
    r ∈ rs.rules ∨ ∃ d ∈ ds, r ∈ d.ruleSet.rules := by
  induction ds generalizing rs with
  | nil => exact .inl h
  | cons d ds ih =>
    rcases ih h with happend | ⟨d', hd', hr⟩
    · rcases mem_rules_append happend with hrs | hr
      · exact .inl hrs
      · exact .inr ⟨d, List.mem_cons_self, hr⟩
    · exact .inr ⟨d', List.mem_cons_of_mem d hd', hr⟩

theorem actions_compile (rs : RuleSet) (ds : List Draft) :
    (rs.compile ds).actions = (ds.flatMap fun d => d.ruleSet.actions).foldl addLast rs.actions := by
  induction ds generalizing rs with
  | nil => rfl
  | cons d ds ih =>
    have hstep : rs.compile (d :: ds) = (rs ++ d.ruleSet).compile ds := rfl
    rw [hstep, ih, actions_append, List.flatMap_cons, List.foldl_append]

/-- **The elements of a document** are those of its drafts, in order. -/
theorem elements_ofDocument (document : String) :
    (ofDocument document).elements = Draft.elementsOf (Draft.ofDocument document) := by
  rw [ofDocument_eq_compile, elements_compile, elements_empty, Elements.empty_append]

/-- **Every rule comes from a draft** that was read as it. -/
theorem exists_draft_of_mem_rules {r : Rule} (h : r ∈ (ofDocument document).rules) :
    ∃ d ∈ Draft.ofDocument document,
      d.action = r.action ∧ d.reading.result = .ok r.condition := by
  rw [ofDocument_eq_compile] at h
  rcases mem_rules_compile h with hempty | ⟨d, hd, hr⟩
  · cases hempty
  · exact ⟨d, hd, Draft.mem_rules_ruleSet.1 hr⟩

/-- **The actions that have a rule** come in the order of the first drafts
that were read. -/
theorem actions_ofDocument (document : String) :
    (ofDocument document).actions =
      ((Draft.ofDocument document).flatMap fun d => d.ruleSet.actions).eraseDups := by
  rw [ofDocument_eq_compile, actions_compile, actions_empty, foldl_addLast_nil]

/-- They are those of the drafts that were read. -/
theorem mem_actions_ofDocument {a : Action} :
    a ∈ (ofDocument document).actions ↔
      ∃ d ∈ Draft.ofDocument document, d.action = a ∧ ∃ c, d.reading.result = .ok c := by
  rw [actions_ofDocument, List.mem_eraseDups, List.mem_flatMap]
  simp only [Draft.mem_actions_ruleSet]

end RuleSet

end DialogRules
