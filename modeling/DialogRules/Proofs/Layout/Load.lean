import DialogRules.Layout.Load
import DialogRules.Proofs.Draft
import DialogRules.Proofs.Layout.Agreement

/-!
# A checked document compiles faithfully

Checking and compiling a document go over its lines on their own. The
check refuses a line that it cannot account for, and compiling passes over
it or keeps it with an advisory. Once no line is refused, the two agree:
every line is a draft about which there is nothing to say
(`exists_draft_of_checkLine`), and the elements that the check collects
are those of the drafts (`accountsFor_of_check`). What this means for the
rule set is `Compiled`.
-/

namespace DialogRules

namespace Layout

variable {layout : Layout} {es : Elements}

/-! ## Line by line -/

/-- What the check of a line makes sure of about its draft. -/
structure Vouches (layout : Layout) (d : Draft) : Prop where
  /-- The condition was read. -/
  parsed : ∃ c, d.reading.result = .ok c
  /-- The atoms that were completed are those of the condition. -/
  atoms : ∀ c, d.reading.result = .ok c → c.atoms = d.reading.atoms
  /-- Nothing is advised about them. -/
  advisories : d.reading.advisories = []
  /-- The layout has the elements that they are about. -/
  known : ∀ name ∈ d.reading.elements, name ∈ layout

/-- Such a draft adds the elements of its reading. -/
theorem Vouches.elements_eq {d : Draft} (h : layout.Vouches d) :
    d.ruleSet.elements = d.reading.elements := by
  obtain ⟨c, hc⟩ := h.parsed
  exact Draft.elements_ruleSet hc

/-- **A line that is accepted is a draft** that the check vouches for,
with the same elements. -/
theorem exists_draft_of_checkLine {line : Line} (h : layout.checkLine line.text = .ok es) :
    ∃ d, Draft.ofLine? line = some d ∧ layout.Vouches d ∧ d.ruleSet.elements = es := by
  obtain ⟨condition, hscreen, hjudge⟩ := checkLine_eq_ok_iff_judge.1 h
  obtain ⟨⟨action, hwritten⟩, -⟩ := Statement.screen_eq_ok_iff.1 hscreen
  obtain ⟨⟨c, hc⟩, hknown, hadvisories, helements⟩ := judge_eq_ok_iff.1 hjudge
  have hstatement := Statement.ofLine?_eq_some_iff.2 hwritten
  let d : Draft := ⟨line, action, Condition.read condition⟩
  have hvouches : layout.Vouches d :=
    { parsed := ⟨c, hc⟩
      atoms := fun _ hresult => Condition.atoms_of_result hresult
      advisories := hadvisories
      known := hknown }
  have hd : Draft.ofLine? line = some d :=
    Draft.ofLine?_eq_some_iff.2 ⟨rfl, condition, hstatement, rfl⟩
  exact ⟨d, hd, hvouches, hvouches.elements_eq.trans helements⟩

/-- What the check of some lines makes sure of about the drafts among
them. -/
structure AccountsFor (layout : Layout) (lines : List Line) (ds : List Draft) (es : Elements) :
    Prop where
  /-- No line is passed over. -/
  lines : ds.map Draft.line = lines
  /-- Every draft is vouched for. -/
  vouches : ∀ d ∈ ds, layout.Vouches d
  /-- The elements are those of the drafts. -/
  elements : Draft.elementsOf ds = es

/-- Lines are accepted if the first is and the others are. -/
theorem checkLines_cons_eq_ok_iff {line : Line} {lines : List Line} :
    layout.checkLines (line :: lines) = .ok es ↔
      ∃ fs gs, layout.checkLine line.text = .ok fs ∧ layout.checkLines lines = .ok gs ∧
        fs ++ gs = es := by
  rw [checkLines.eq_def]
  dsimp only
  cases layout.checkLine line.text with
  | error e => simp
  | ok fs =>
    cases layout.checkLines lines with
    | error e => simp [Except.map]
    | ok gs => simp [Except.map]

/-- Lines are refused for the first of them, or if that is accepted for
the others. -/
theorem checkLines_cons_eq_error_iff {line : Line} {lines : List Line} {e : RefusedLine} :
    layout.checkLines (line :: lines) = .error e ↔
      (∃ cause, layout.checkLine line.text = .error cause ∧ ⟨line, cause⟩ = e) ∨
        ∃ fs, layout.checkLine line.text = .ok fs ∧ layout.checkLines lines = .error e := by
  rw [checkLines.eq_def]
  dsimp only
  cases layout.checkLine line.text with
  | error cause => simp
  | ok fs =>
    cases layout.checkLines lines with
    | error e => simp [Except.map]
    | ok gs => simp [Except.map]

/-- Lines that are accepted together are accepted one by one. -/
theorem forall_checkLine_of_checkLines {lines : List Line}
    (h : layout.checkLines lines = .ok es) :
    ∀ line ∈ lines, ∃ es, layout.checkLine line.text = .ok es := by
  induction lines generalizing es with
  | nil => simp
  | cons line lines ih =>
    obtain ⟨fs, gs, hline, hlines, -⟩ := checkLines_cons_eq_ok_iff.1 h
    exact List.forall_mem_cons.2 ⟨⟨fs, hline⟩, ih hlines⟩

/-- **The line at fault** is the first that is not accepted. -/
theorem exists_split_of_checkLines {lines : List Line} {e : RefusedLine}
    (h : layout.checkLines lines = .error e) :
    ∃ before behind, lines = before ++ e.line :: behind ∧
      (∀ line ∈ before, ∃ es, layout.checkLine line.text = .ok es) ∧
      layout.checkLine e.line.text = .error e.cause := by
  induction lines with
  | nil => cases h
  | cons line lines ih =>
    rcases checkLines_cons_eq_error_iff.1 h with ⟨cause, hline, rfl⟩ | ⟨fs, hline, hlines⟩
    · exact ⟨[], lines, rfl, by simp, hline⟩
    · obtain ⟨before, behind, hsplit, hbefore, hfault⟩ := ih hlines
      refine ⟨line :: before, behind, ?_, List.forall_mem_cons.2 ⟨⟨fs, hline⟩, hbefore⟩, hfault⟩
      rw [hsplit, List.cons_append]

/-- **The check accounts for every line** of those that it accepts. -/
theorem accountsFor_of_checkLines {lines : List Line} (h : layout.checkLines lines = .ok es) :
    layout.AccountsFor lines (lines.filterMap Draft.ofLine?) es := by
  induction lines generalizing es with
  | nil =>
    cases h
    exact ⟨rfl, by simp, rfl⟩
  | cons line lines ih =>
    obtain ⟨fs, gs, hline, hrest, hes⟩ := checkLines_cons_eq_ok_iff.1 h
    obtain ⟨d, hd, hvouches, helements⟩ := exists_draft_of_checkLine hline
    have hrest := ih hrest
    rw [List.filterMap_cons_some hd]
    refine ⟨?_, List.forall_mem_cons.2 ⟨hvouches, hrest.vouches⟩, ?_⟩
    · rw [List.map_cons, hrest.lines, (Draft.ofLine?_eq_some_iff.1 hd).1]
    · rw [Draft.elementsOf, helements, hrest.elements, hes]

theorem accountsFor_of_check {document : String} (h : layout.check document = .ok es) :
    layout.AccountsFor (Line.ofDocument document) (Draft.ofDocument document) es :=
  accountsFor_of_checkLines h

/-! ## The rule set -/

namespace AccountsFor

variable {lines : List Line} {ds : List Draft} {document : String}

theorem exists_draft (h : layout.AccountsFor lines ds es) {line : Line} (hline : line ∈ lines) :
    ∃ d ∈ ds, d.line = line := by
  rw [← h.lines] at hline
  exact List.mem_map.1 hline

theorem parsed (h : layout.AccountsFor lines ds es) :
    ∀ d ∈ ds, ∃ c, d.reading.result = .ok c :=
  fun d hd => (h.vouches d hd).parsed

/-- The elements are those that the conditions were read to ask about. -/
theorem mem_elements_iff (h : layout.AccountsFor lines ds es) {name : String} :
    name ∈ es ↔ ∃ d ∈ ds, name ∈ d.reading.elements := by
  rw [← h.elements, Draft.mem_elementsOf]
  constructor
  · rintro ⟨d, hd, hname⟩
    exact ⟨d, hd, (h.vouches d hd).elements_eq ▸ hname⟩
  · rintro ⟨d, hd, hname⟩
    exact ⟨d, hd, (h.vouches d hd).elements_eq.symm ▸ hname⟩

/-- The layout has them all. -/
theorem known (h : layout.AccountsFor lines ds es) : ∀ name ∈ es, name ∈ layout := by
  intro name hname
  obtain ⟨d, hd, hname⟩ := h.mem_elements_iff.1 hname
  exact (h.vouches d hd).known name hname

/-- Every line is a statement whose condition can be read. -/
theorem exists_statement
    (h : layout.AccountsFor (Line.ofDocument document) (Draft.ofDocument document) es)
    {line : Line} (hline : line ∈ Line.ofDocument document) :
    ∃ (a : Action) (condition : String) (c : Condition),
      Statement.ofLine? line.text = some ⟨a.text, condition⟩ ∧
        (Condition.read condition).result = .ok c := by
  obtain ⟨d, hd, rfl⟩ := h.exists_draft hline
  obtain ⟨-, condition, hstatement, hreading⟩ := Draft.of_mem_ofDocument hd
  obtain ⟨c, hc⟩ := (h.vouches d hd).parsed
  exact ⟨d.action, condition, c, hstatement, hreading ▸ hc⟩

/-- The lines name the actions of the drafts. -/
theorem map_action?
    (h : layout.AccountsFor (Line.ofDocument document) (Draft.ofDocument document) es) :
    (Line.ofDocument document).map Line.action? =
      ((Draft.ofDocument document).map Draft.action).map fun a => some a.text := by
  rw [← h.lines, List.map_map, List.map_map]
  refine List.map_congr_left fun d hd => ?_
  rw [Function.comp_apply, Function.comp_apply, Draft.action?_line hd]

/-- Their conditions have the subjects of the drafts. -/
theorem map_subjects
    (h : layout.AccountsFor (Line.ofDocument document) (Draft.ofDocument document) es) :
    (Line.ofDocument document).map Line.subjects =
      (Draft.ofDocument document).map fun d => d.reading.subjects := by
  rw [← h.lines, List.map_map]
  refine List.map_congr_left fun d hd => ?_
  rw [Function.comp_apply, Draft.subjects_line hd]

/-- There is a rule for the actions that the lines name. -/
theorem mem_actions_iff
    (h : layout.AccountsFor (Line.ofDocument document) (Draft.ofDocument document) es)
    {a : Action} :
    a ∈ (RuleSet.ofDocument document).actions ↔ ∃ line ∈ Line.ofDocument document,
      ∃ condition, Statement.ofLine? line.text = some ⟨a.text, condition⟩ := by
  rw [RuleSet.mem_actions_ofDocument]
  constructor
  · rintro ⟨d, hd, rfl, -⟩
    obtain ⟨hline, condition, hstatement, -⟩ := Draft.of_mem_ofDocument hd
    exact ⟨d.line, hline, condition, hstatement⟩
  · rintro ⟨line, hline, condition, hstatement⟩
    obtain ⟨d, hd, rfl⟩ := h.exists_draft hline
    have haction := Draft.action_eq_of_mem_ofDocument hd hstatement
    exact ⟨d, hd, haction, (h.vouches d hd).parsed⟩

/-- The atoms of a rule are those of its draft, so nothing is wrong with
them. -/
theorem isWellFormed_of_mem_rules
    (h : layout.AccountsFor (Line.ofDocument document) (Draft.ofDocument document) es)
    {r : Rule} (hr : r ∈ (RuleSet.ofDocument document).rules) {a : Atom}
    (ha : a ∈ r.condition.atoms) : a.isWellFormed = true ∧ a.subject ∈ es := by
  obtain ⟨d, hd, -, hresult⟩ := RuleSet.exists_draft_of_mem_rules hr
  have hvouches := h.vouches d hd
  rw [hvouches.atoms _ hresult] at ha
  have hformed := Reading.advisories_eq_nil_iff.1 hvouches.advisories a ha
  have hname : a.subject ∈ d.reading.elements :=
    Elements.mem_ofList.2 (List.mem_map_of_mem ha)
  exact ⟨hformed, h.mem_elements_iff.2 ⟨d, hd, hname⟩⟩

end AccountsFor

/-- What compiling makes of a document that a layout accepted with some
elements. -/
structure Compiled (layout : Layout) (document : String) (es : Elements) : Prop where
  /-- Every line is a statement about an action, and its condition can be
  read. -/
  statements : ∀ line ∈ Line.ofDocument document,
    ∃ (a : Action) (condition : String) (c : Condition),
      Statement.ofLine? line.text = some ⟨a.text, condition⟩ ∧
        (Condition.read condition).result = .ok c
  /-- No line is passed over. -/
  lines : (Draft.ofDocument document).map Draft.line = Line.ofDocument document
  /-- Nothing is advised. -/
  advisories : RuleSet.advisories document = []
  /-- The elements are those of the check, in the same order. -/
  elements : (RuleSet.ofDocument document).elements = es
  /-- The layout has them all. -/
  known : ∀ name ∈ es, name ∈ layout
  /-- There is a rule for exactly the actions that the lines name. -/
  actions : ∀ a : Action, a ∈ (RuleSet.ofDocument document).actions ↔
    ∃ line ∈ Line.ofDocument document, ∃ condition,
      Statement.ofLine? line.text = some ⟨a.text, condition⟩
  /-- The atoms of the rules are well formed, and about these elements. -/
  atoms : ∀ r ∈ (RuleSet.ofDocument document).rules, ∀ a ∈ r.condition.atoms,
    a.isWellFormed = true ∧ a.subject ∈ es
  /-- Loading the document gives this rule set. -/
  load : layout.load document = .ok (RuleSet.ofDocument document)

/-- **A document that is accepted compiles faithfully.** -/
theorem compiled_of_check {document : String} (h : layout.check document = .ok es) :
    layout.Compiled document es := by
  have haccounts := accountsFor_of_check h
  refine
    { statements := fun line hline => haccounts.exists_statement hline
      lines := haccounts.lines
      advisories := ?_
      elements := ?_
      known := haccounts.known
      actions := fun a => haccounts.mem_actions_iff
      atoms := fun r hr a ha => haccounts.isWellFormed_of_mem_rules hr ha
      load := by rw [load, h] }
  · rw [RuleSet.advisories, List.flatMap_eq_nil_iff]
    exact fun d hd => (haccounts.vouches d hd).advisories
  · rw [RuleSet.elements_ofDocument, haccounts.elements]

/-- The last line replaces the rule of the first, whose element stays. -/
theorem compiled_replaced_rule :
    (ofList ["Name", "Age"]).check "show if Age >= 18;\n\nshow if (Name != checked);" =
        .ok (Elements.ofList ["Age", "Name"]) ∧
      (ofList ["Name", "Age"]).Compiled "show if Age >= 18;\n\nshow if (Name != checked);"
        (Elements.ofList ["Age", "Name"]) := by
  have h : (ofList ["Name", "Age"]).check "show if Age >= 18;\n\nshow if (Name != checked);" =
      .ok (Elements.ofList ["Age", "Name"]) := by decide +kernel
  exact ⟨h, compiled_of_check h⟩

end Layout

end DialogRules
