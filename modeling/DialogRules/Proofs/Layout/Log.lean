import DialogRules.Log
import DialogRules.Proofs.Layout.Load

/-!
# What a load logs

Three parts of a load have something to say: the check of a line about
its condition, the check of a document about the line that it refuses, and
the compilation about the drafts and about the whole. A line that is
accepted says nothing, since the advisories that would be noted are the
atoms that it would be refused for, and the compilation has nothing to say
about its draft for the same reason. So a load that succeeds logs the size
of the rule set and nothing else, and one that fails logs what concerns
the line at fault and nothing else (`Layout.entries_loadLog`).
-/

namespace DialogRules

/-! ## Events as they are written -/

/-- An event as it is written to the log. -/
structure Event.Entry where
  severity : Severity
  message : String
  fields : List (String × Event.Value)
deriving DecidableEq

/-- How an event is written. -/
def Event.entry (event : Event) : Entry := ⟨event.severity, event.message, event.fields⟩

/-! ## What a line has to say -/

namespace Line

/-- The advisories about the condition of a line, if the line passes the
screen and the condition can be read. -/
def advisories (line : Line) : List Advisory :=
  match Statement.screen line.text with
  | .error _ => []
  | .ok condition =>
    match (Condition.read condition).result with
    | .error _ => []
    | .ok _ => (Condition.read condition).advisories

end Line

namespace Layout

variable {layout : Layout} {line : Line} {es : Elements}

/-- What is noted about a line is the same in every layout. -/
theorem lineLog_eq (layout : Layout) (line : Line) :
    layout.lineLog line.text = line.advisories.map .noted := by
  rw [lineLog, examine, Line.advisories]
  cases Statement.screen line.text with
  | error e => rfl
  | ok condition =>
    cases hresult : (Condition.read condition).result with
    | error e => simp only [hresult]
    | ok c =>
      simp only [hresult]
      cases layout.fault? condition (Condition.read condition).elements with
      | some e => rfl
      | none => rfl

/-- **Nothing is noted about a line that is accepted.** -/
theorem advisories_of_checkLine (h : layout.checkLine line.text = .ok es) :
    line.advisories = [] := by
  obtain ⟨condition, hscreen, hjudge⟩ := checkLine_eq_ok_iff_judge.1 h
  obtain ⟨⟨c, hc⟩, -, hadvisories, -⟩ := judge_eq_ok_iff.1 hjudge
  simp only [Line.advisories, hscreen, hc, hadvisories]

/-- **An atom that a line is refused for is noted first.** -/
theorem head?_advisories_of_checkLine {a : Advisory}
    (h : layout.checkLine line.text = .error (.malformedAtom a)) :
    line.advisories.head? = some a := by
  cases hscreen : Statement.screen line.text with
  | error e =>
    rw [checkLine, examine, hscreen] at h
    obtain rfl : e = .malformedAtom a := Except.error.inj h
    exact absurd hscreen ((Statement.screen_ne_error line.text).1 a)
  | ok condition =>
    rw [checkLine_of_screen layout hscreen, judge_eq_malformedAtom_iff] at h
    obtain ⟨⟨c, hc⟩, -, hfirst⟩ := h
    simp only [Line.advisories, hscreen, hc, hfirst]

/-! ## What the check of a document has to say -/

/-- The check passes over the lines that it accepts in silence. -/
theorem linesLog_append {accepted : List Line}
    (h : ∀ line ∈ accepted, ∃ es, layout.checkLine line.text = .ok es) (lines : List Line) :
    layout.linesLog (accepted ++ lines) = layout.linesLog lines := by
  induction accepted with
  | nil => rfl
  | cons line accepted ih =>
    obtain ⟨⟨es, hes⟩, haccepted⟩ := List.forall_mem_cons.1 h
    rw [List.cons_append, linesLog, hes, lineLog_eq, advisories_of_checkLine hes]
    exact ih haccepted

/-- The check of a document that is accepted is silent. -/
theorem log_of_check {document : String} (h : layout.check document = .ok es) :
    layout.log document = [] := by
  have hsilent := linesLog_append (forall_checkLine_of_checkLines h) []
  rw [List.append_nil] at hsilent
  exact hsilent

/-- **The check of a document that is refused** notes what is advised about
the line at fault, and then the refusal. -/
theorem log_of_check_eq_error {document : String} {e : RefusedLine}
    (h : layout.check document = .error e) :
    layout.log document = e.line.advisories.map .noted ++ [.refused e.line.number e.cause] := by
  obtain ⟨before, behind, hlines, hbefore, hfault⟩ := exists_split_of_checkLines h
  rw [log, hlines, linesLog_append hbefore, linesLog, hfault, lineLog_eq]

/-! ## What the compilation has to say -/

/-- A draft that the check vouches for is compiled in silence. -/
theorem Vouches.log_eq {d : Draft} (h : layout.Vouches d) : d.log = [] := by
  obtain ⟨c, hc⟩ := h.parsed
  simp only [Draft.log, h.advisories, hc, List.map_nil, List.append_nil]

namespace AccountsFor

variable {document : String}

/-- There is a rule for every action that the lines name. -/
theorem map_text_actions
    (h : layout.AccountsFor (Line.ofDocument document) (Draft.ofDocument document) es) :
    (RuleSet.ofDocument document).actions.map Action.text =
      ((Line.ofDocument document).filterMap Line.action?).eraseDups := by
  have hwords : (Line.ofDocument document).filterMap Line.action? =
      ((Draft.ofDocument document).map Draft.action).map Action.text := by
    have hnamed := congrArg (List.filterMap id) h.map_action?
    rw [List.filterMap_map, List.filterMap_map, Function.id_comp, Function.id_comp] at hnamed
    exact hnamed.trans (congrFun List.filterMap_eq_map _)
  rw [RuleSet.actions_ofDocument, Draft.flatMap_actions_ruleSet h.parsed, hwords]
  exact map_eraseDups Vocabulary.text_inj _

/-- The elements are the subjects of the lines. -/
theorem names_elements
    (h : layout.AccountsFor (Line.ofDocument document) (Draft.ofDocument document) es) :
    (RuleSet.ofDocument document).elements.names =
      ((Line.ofDocument document).flatMap Line.subjects).eraseDups := by
  rw [RuleSet.elements_ofDocument, Draft.elementsOf_eq_ofList h.parsed, Elements.names_ofList,
    List.flatMap_def, List.flatMap_def, h.map_subjects]

/-- **A document that is accepted is compiled in silence**, but for the
size of the result: as many rules as there are actions, and as many
elements as there are subjects. -/
theorem log_eq
    (h : layout.AccountsFor (Line.ofDocument document) (Draft.ofDocument document) es) :
    RuleSet.log document =
      [.compiled ((Line.ofDocument document).filterMap Line.action?).eraseDups.length
        ((Line.ofDocument document).flatMap Line.subjects).eraseDups.length] := by
  have hsilent : (Draft.ofDocument document).flatMap Draft.log = [] :=
    List.flatMap_eq_nil_iff.2 fun d hd => (h.vouches d hd).log_eq
  have hrules := congrArg List.length h.map_text_actions
  have helements := congrArg List.length h.names_elements
  rw [List.length_map, RuleSet.actions, List.length_map] at hrules
  rw [RuleSet.log, hsilent, List.nil_append, ← hrules, ← helements]
  rfl

end AccountsFor

/-! ## The whole log -/

/-- **A load logs what happened**, and nothing else. If it succeeds, the
log is the size of the rule set: how many different actions the lines name
and how many different subjects they have. If it fails, the log is what is
advised about the line at fault, when the line got past the screen and its
condition could be read, and then the refusal with the number of the line
and the cause; and when an atom is the cause, it is what is advised
first. -/
theorem entries_loadLog (layout : Layout) (document : String) :
    (∀ rs, layout.load document = .ok rs →
      (layout.loadLog document).map Event.entry =
        [⟨.debug, "compiled rule set",
          [("rules", .number
              ((Line.ofDocument document).filterMap Line.action?).eraseDups.length),
            ("elements", .number
              ((Line.ofDocument document).flatMap Line.subjects).eraseDups.length)]⟩]) ∧
      ∀ error, layout.load document = .error error →
        ∃ e, error = .refused e ∧ e.line ∈ Line.ofDocument document ∧
          (layout.loadLog document).map Event.entry =
            e.line.advisories.map (fun a =>
              ⟨.debug, "advisory from condition parse", [("diagnostic", .text a.message)]⟩) ++
            [⟨.debug, "rejected rule line",
              [("line", .number e.line.number), ("source", .text e.cause.message)]⟩] ∧
          ∀ a, e.cause = .malformedAtom a →
            ((layout.loadLog document).map Event.entry).head? =
              some ⟨.debug, "advisory from condition parse",
                [("diagnostic", .text e.cause.message)]⟩ := by
  rw [load, loadLog]
  cases hcheck : layout.check document with
  | ok es =>
    refine ⟨fun rs _ => ?_, fun error h => by cases h⟩
    simp only [log_of_check hcheck, (accountsFor_of_check hcheck).log_eq, List.nil_append]
    rfl
  | error e =>
    refine ⟨fun rs h => (by cases h), fun error h => ?_⟩
    cases h
    obtain ⟨before, behind, hlines, -, hfault⟩ := exists_split_of_checkLines hcheck
    have hentries : (layout.log document ++ []).map Event.entry =
        e.line.advisories.map (fun a => (Event.noted a).entry) ++
          [(Event.refused e.line.number e.cause).entry] := by
      rw [log_of_check_eq_error hcheck]
      simp
    refine ⟨e, rfl, ?_, hentries, fun a ha => ?_⟩
    · rw [hlines]
      exact List.mem_append_right before List.mem_cons_self
    · have hfirst := head?_advisories_of_checkLine (ha ▸ hfault)
      obtain ⟨as, has⟩ := List.head?_eq_some_iff.1 hfirst
      simp only [hentries, has, ha, List.map_cons, List.cons_append, List.head?_cons]
      rfl

/-- The first document has two lines about one action, and about an element
each. The second is refused at its second line for the first of two atoms,
and both are noted. -/
theorem entries_loadLog_of_two :
    ((ofList ["A", "B"]).loadLog "show if A == 1;\n\nshow if B >= 2;").map Event.entry =
        [⟨.debug, "compiled rule set", [("rules", .number 1), ("elements", .number 2)]⟩] ∧
      ((ofList ["A", "B"]).loadLog "\nhide if A == x & B is 1;\nshow if B;").map Event.entry =
        [⟨.debug, "advisory from condition parse",
            [("diagnostic", .text "'x' is not a valid property or number for element 'A'")]⟩,
          ⟨.debug, "advisory from condition parse",
            [("diagnostic", .text "'is' is not a valid operator for element 'B'")]⟩,
          ⟨.debug, "rejected rule line", [("line", .number 2),
            ("source", .text "'x' is not a valid property or number for element 'A'")]⟩] ∧
      (((ofList ["A", "B"]).loadLog "\nhide if A == x & B is 1;\nshow if B;").map
          Event.entry).head? =
        some ⟨.debug, "advisory from condition parse", [("diagnostic",
          .text (Refusal.malformedAtom (.invalidPredicate "A" "x")).message)]⟩ := by
  have hload : (ofList ["A", "B"]).load "show if A == 1;\n\nshow if B >= 2;" =
      .ok (RuleSet.ofDocument "show if A == 1;\n\nshow if B >= 2;") := by
    decide +kernel
  have hrefused : (ofList ["A", "B"]).load "\nhide if A == x & B is 1;\nshow if B;" =
      .error (.refused ⟨⟨2, "hide if A == x & B is 1;"⟩,
        .malformedAtom (.invalidPredicate "A" "x")⟩) := by
    decide +kernel
  obtain ⟨e, he, -, hentries, hfirst⟩ := (entries_loadLog _ _).2 _ hrefused
  cases he
  refine ⟨?_, ?_, hfirst _ rfl⟩
  · rw [(entries_loadLog _ _).1 _ hload]
    decide +kernel
  · rw [hentries]
    decide +kernel

/-- The screen comes before the reading. So an advisory is not noted about
a line that the screen refuses, although its condition can be read. -/
theorem not_noted_of_refused_by_screen :
    (ofList ["A"]).load "show if A + 1;" =
        .error (.refused ⟨⟨1, "show if A + 1;"⟩, .disallowedToken "+"⟩) ∧
      Statement.ofLine? "show if A + 1;" = some ⟨"show", "A + 1"⟩ ∧
      Condition.read "A + 1" = ⟨.ok (.atom ⟨"A", "+", "1"⟩), [⟨"A", "+", "1"⟩], []⟩ ∧
      (Condition.read "A + 1").advisories = [.invalidOperator "A" "+"] ∧
      ((ofList ["A"]).loadLog "show if A + 1;").map Event.entry ≠
        (Condition.read "A + 1").advisories.map (fun a =>
            ⟨.debug, "advisory from condition parse", [("diagnostic", .text a.message)]⟩) ++
          [⟨.debug, "rejected rule line",
            [("line", .number 1), ("source", .text (Refusal.disallowedToken "+").message)]⟩] := by
  decide +kernel

end Layout

end DialogRules
