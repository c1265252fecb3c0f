import DialogRules.Proofs.Layout.FirstRefused
import DialogRules.Proofs.Layout.RoundTrip

/-!
# Layouts with more elements

A layout is asked one thing only: whether it has an element. So a wider
layout gives the same verdict on a line, unless the line was refused for
elements that are not there (`Layout.checkLine_eq_of_subset`); then those
count that are still not there (`checkLine_eq_unknownElements_of_subset`).
No document fares worse. And the answer of a check that succeeds is the
narrowest layout for the document: a layout accepts it exactly if it has
these elements (`exists_check_iff`).
-/

namespace DialogRules

namespace Layout

/-- A wider layout has every element of a narrower one. -/
instance : HasSubset Layout := ⟨fun layout wider => ∀ name ∈ layout, name ∈ wider⟩

variable {layout wider : Layout} {line document : String} {names : List String} {r : Reading}
variable {es : Elements}

/-! ## Readings -/

/-- What a wider layout does not have is left of what the narrower one does
not have. -/
theorem unknown_of_subset (h : layout ⊆ wider) (es : Elements) :
    wider.unknown es = (layout.unknown es).filter (· ∉ wider) := by
  rw [unknown, unknown, List.filter_filter]
  refine List.filter_congr fun name _ => ?_
  by_cases hname : name ∈ layout
  · simp [hname, h name hname]
  · simp [hname]

theorem judge_eq_unknownElements_iff :
    layout.judge r = .error (.unknownElements names) ↔
      (∃ c, r.result = .ok c) ∧ layout.unknown r.elements = names ∧ names ≠ [] := by
  rw [judge]
  cases r.result with
  | error e => simp
  | ok c =>
    cases hunknown : layout.unknown r.elements with
    | nil => cases r.advisories <;> simp
    | cons name rest =>
      have hne : name :: rest = names → names ≠ [] := fun h => h ▸ List.cons_ne_nil name rest
      simpa using hne

/-- **Only missing elements make a difference** to a wider layout. -/
theorem judge_eq_of_subset (h : layout ⊆ wider)
    (hr : ∀ names, layout.judge r ≠ .error (.unknownElements names)) :
    wider.judge r = layout.judge r := by
  rw [judge, judge]
  cases hresult : r.result with
  | error e => rfl
  | ok c =>
    have hnone : layout.unknown r.elements = [] := Decidable.byContradiction fun hne =>
      hr _ (judge_eq_unknownElements_iff.2 ⟨⟨c, hresult⟩, rfl, hne⟩)
    have hnone' : wider.unknown r.elements = [] := by
      rw [unknown_of_subset h, hnone, List.filter_nil]
    simp only [hnone, hnone']

/-! ## Lines -/

/-- A line is refused for missing elements if it passes the screen and its
condition asks for such. -/
theorem checkLine_eq_unknownElements_iff :
    layout.checkLine line = .error (.unknownElements names) ↔
      ∃ condition, Statement.screen line = .ok condition ∧
        layout.judge (Condition.read condition) = .error (.unknownElements names) := by
  cases hscreen : Statement.screen line with
  | error cause =>
    rw [checkLine_of_screen_error layout hscreen]
    constructor
    · intro h
      cases h
      exact absurd hscreen ((Statement.screen_ne_error line).2 names)
    · rintro ⟨condition, hcondition, -⟩
      cases hcondition
  | ok condition =>
    rw [checkLine_of_screen layout hscreen]
    constructor
    · exact fun h => ⟨condition, rfl, h⟩
    · rintro ⟨condition', hcondition, h⟩
      cases hcondition
      exact h

/-- **A verdict stands in a wider layout** if it does not name missing
elements. -/
theorem checkLine_eq_of_subset (h : layout ⊆ wider)
    (hline : ∀ names, layout.checkLine line ≠ .error (.unknownElements names)) :
    wider.checkLine line = layout.checkLine line := by
  cases hscreen : Statement.screen line with
  | error cause =>
    rw [checkLine_of_screen_error layout hscreen, checkLine_of_screen_error wider hscreen]
  | ok condition =>
    rw [checkLine_of_screen layout hscreen] at hline
    rw [checkLine_of_screen layout hscreen, checkLine_of_screen wider hscreen]
    exact judge_eq_of_subset h hline

/-- The elements that a line is refused for are missing, each named once. -/
theorem missing_of_checkLine (hline : layout.checkLine line = .error (.unknownElements names)) :
    names ≠ [] ∧ names.Nodup ∧ ∀ name ∈ names, name ∉ layout := by
  obtain ⟨condition, -, hjudge⟩ := checkLine_eq_unknownElements_iff.1 hline
  obtain ⟨-, hunknown, hne⟩ := judge_eq_unknownElements_iff.1 hjudge
  subst hunknown
  exact ⟨hne, (Condition.read condition).elements.nodup.sublist List.filter_sublist,
    fun name hname => (mem_unknown.1 hname).2⟩

/-- **Of the missing elements those count that are still missing** in a
wider layout. -/
theorem checkLine_eq_unknownElements_of_subset (h : layout ⊆ wider)
    (hline : layout.checkLine line = .error (.unknownElements names)) {others : List String} :
    wider.checkLine line = .error (.unknownElements others) ↔
      others = names.filter (· ∉ wider) ∧ others ≠ [] := by
  obtain ⟨condition, hscreen, hjudge⟩ := checkLine_eq_unknownElements_iff.1 hline
  obtain ⟨hparsed, hunknown, -⟩ := judge_eq_unknownElements_iff.1 hjudge
  rw [checkLine_of_screen wider hscreen, judge_eq_unknownElements_iff, unknown_of_subset h,
    hunknown, @eq_comm _ others]
  exact and_iff_right hparsed

/-- A line that a layout accepts is accepted wherever there are its
elements. -/
theorem checkLine_of_forall_mem (hline : layout.checkLine line = .ok es)
    (h : ∀ name ∈ es, name ∈ wider) : wider.checkLine line = .ok es := by
  obtain ⟨condition, hscreen, hjudge⟩ := checkLine_eq_ok_iff_judge.1 hline
  obtain ⟨hparsed, -, hadvisories, helements⟩ := judge_eq_ok_iff.1 hjudge
  have hknown : ∀ name ∈ (Condition.read condition).elements, name ∈ wider := helements ▸ h
  exact checkLine_eq_ok_iff_judge.2
    ⟨condition, hscreen, judge_eq_ok_iff.2 ⟨hparsed, hknown, hadvisories, helements⟩⟩

/-! ## Documents -/

theorem checkLines_of_forall_mem {lines : List Line} (hlines : layout.checkLines lines = .ok es)
    (h : ∀ name ∈ es, name ∈ wider) : wider.checkLines lines = .ok es := by
  induction lines generalizing es with
  | nil => exact hlines
  | cons line lines ih =>
    obtain ⟨fs, gs, hline, hrest, rfl⟩ := checkLines_cons_eq_ok_iff.1 hlines
    have hfs : ∀ name ∈ fs, name ∈ wider := fun name hname =>
      h name (Elements.mem_append.2 (.inl hname))
    have hgs : ∀ name ∈ gs, name ∈ wider := fun name hname =>
      h name (Elements.mem_append.2 (.inr hname))
    exact checkLines_cons_eq_ok_iff.2
      ⟨fs, gs, checkLine_of_forall_mem hline hfs, ih hrest hgs, rfl⟩

/-- **The answer of a check is the narrowest layout** that accepts the
document. -/
theorem exists_check_iff (hcheck : layout.check document = .ok es) (other : Layout) :
    (∃ fs, other.check document = .ok fs) ↔ ∀ name ∈ es, name ∈ other := by
  constructor
  · rintro ⟨fs, hfs⟩
    have haccounts := accountsFor_of_check hcheck
    have haccounts' := accountsFor_of_check hfs
    rw [← haccounts.elements, haccounts'.elements]
    exact haccounts'.known
  · exact fun h => ⟨es, checkLines_of_forall_mem hcheck h⟩

theorem check_eq_ok_of_subset (h : layout ⊆ wider) (hcheck : layout.check document = .ok es) :
    wider.check document = .ok es :=
  checkLines_of_forall_mem hcheck fun name hname =>
    h name ((accountsFor_of_check hcheck).known name hname)

/-- A row that a wider layout refuses is refused by the narrower one. -/
theorem Refuses.of_subset {cause : Refusal} (h : layout ⊆ wider)
    (hrow : wider.Refuses line cause) : ∃ cause, layout.Refuses line cause := by
  cases hline : layout.checkLine line with
  | error cause => exact ⟨cause, hrow.1, hline⟩
  | ok es =>
    have hwider := checkLine_eq_of_subset h fun names => by rw [hline]; nofun
    rw [hrow.2, hline] at hwider
    cases hwider

/-- **A wider layout comes as far** in a document before it refuses a
line. -/
theorem number_le_of_subset (h : layout ⊆ wider) {e e' : RefusedLine}
    (he : layout.check document = .error e) (he' : wider.check document = .error e') :
    e.line.number ≤ e'.line.number := by
  obtain ⟨before, row, behind, hrows, hbefore, -, hline⟩ := check_eq_error_iff.1 he
  obtain ⟨before', row', behind', hrows', -, hrow', hline'⟩ := check_eq_error_iff.1 he'
  rw [hline, hline']
  refine Nat.succ_le_succ (Nat.le_of_not_lt fun hlt => ?_)
  -- the row that the wider layout refuses stands before the one that the narrower refuses
  have hat : (before ++ row :: behind)[before'.length]? = some row' := by
    rw [← hrows, hrows', List.getElem?_append_right (Nat.le_refl _), Nat.sub_self]
    rfl
  rw [List.getElem?_append_left hlt] at hat
  obtain ⟨cause, hcause⟩ := hrow'.of_subset h
  exact hbefore row' (List.mem_of_getElem? hat) cause hcause

/-- **Nothing fares worse in a wider layout.** The verdict on a line is the
same, unless elements are missing; these are named once each, and the wider
layout refuses the line for those that it does not have either, in the same
order, and never for missing elements if it has them all. A document that
is accepted is accepted with the same elements and loaded as the same rule
set. One that is refused is accepted or refused on no earlier line. And the
elements of an accepted document are what a layout needs to accept it, and
all that it needs. -/
theorem check_of_subset (h : layout ⊆ wider) :
    (∀ line : String,
      ((∀ names, layout.checkLine line ≠ .error (.unknownElements names)) →
        wider.checkLine line = layout.checkLine line) ∧
      ∀ names, layout.checkLine line = .error (.unknownElements names) →
        names ≠ [] ∧ names.Nodup ∧ (∀ name ∈ names, name ∉ layout) ∧
          ∀ others, wider.checkLine line = .error (.unknownElements others) ↔
            others = names.filter (· ∉ wider) ∧ others ≠ []) ∧
    ∀ document : String,
      (∀ es, layout.check document = .ok es →
        wider.check document = .ok es ∧
          ∃ rs, layout.load document = .ok rs ∧ wider.load document = .ok rs) ∧
      (∀ e, layout.check document = .error e →
        (∃ es, wider.check document = .ok es) ∨
          ∃ e', wider.check document = .error e' ∧ e.line.number ≤ e'.line.number) ∧
      ∀ es, layout.check document = .ok es → ∀ other : Layout,
        (∃ fs, other.check document = .ok fs) ↔ ∀ name ∈ es, name ∈ other := by
  refine ⟨fun line => ⟨checkLine_eq_of_subset h, fun names hline => ?_⟩,
    fun document => ⟨fun es hcheck => ?_, fun e he => ?_, fun es hcheck other => ?_⟩⟩
  · obtain ⟨hne, hnodup, hmissing⟩ := missing_of_checkLine hline
    exact ⟨hne, hnodup, hmissing, fun others => checkLine_eq_unknownElements_of_subset h hline⟩
  · have hwider := check_eq_ok_of_subset h hcheck
    exact ⟨hwider, RuleSet.ofDocument document, load_eq_ok_iff.2 ⟨⟨es, hcheck⟩, rfl⟩,
      load_eq_ok_iff.2 ⟨⟨es, hwider⟩, rfl⟩⟩
  · cases he' : wider.check document with
    | ok es => exact .inl ⟨es, rfl⟩
    | error e' => exact .inr ⟨e', rfl, number_le_of_subset h he he'⟩
  · exact exists_check_iff hcheck other

/-- With one element more, a bad predicate is still refused, one of two
missing elements is still missing, and a document is refused a line
later. -/
theorem check_of_subset_insert :
    ofList ["A"] ⊆ ofList ["A", "B"] ∧
      (ofList ["A"]).checkLine "show if A == x;" =
        .error (.malformedAtom (.invalidPredicate "A" "x")) ∧
      (ofList ["A", "B"]).checkLine "show if A == x;" =
        .error (.malformedAtom (.invalidPredicate "A" "x")) ∧
      (ofList ["A"]).checkLine "show if C == 1 & B == 2 & A == x;" =
        .error (.unknownElements ["C", "B"]) ∧
      (ofList ["A", "B"]).checkLine "show if C == 1 & B == 2 & A == x;" =
        .error (.unknownElements ["C"]) ∧
      (ofList ["A"]).check "show if A == 1;" = .ok (Elements.ofList ["A"]) ∧
      (ofList ["A", "B"]).check "show if A == 1;" = .ok (Elements.ofList ["A"]) ∧
      (¬ ∃ fs, (ofList ["B"]).check "show if A == 1;" = .ok fs) ∧
      (ofList ["A"]).check "show if A == 1;\nshow if B == 1;\nhide if C == 1;" =
        .error ⟨⟨2, "show if B == 1;"⟩, .unknownElements ["B"]⟩ ∧
      ((∃ es, (ofList ["A", "B"]).check "show if A == 1;\nshow if B == 1;\nhide if C == 1;" =
          .ok es) ∨
        ∃ e', (ofList ["A", "B"]).check "show if A == 1;\nshow if B == 1;\nhide if C == 1;" =
            .error e' ∧ 2 ≤ e'.line.number) := by
  have hsubset : ofList ["A"] ⊆ ofList ["A", "B"] := by
    intro name hname
    have hA : name ∈ ["A"] := Elements.mem_ofList.1 hname
    exact Elements.mem_ofList.2 (List.mem_append_left ["B"] hA)
  have hpredicate : (ofList ["A"]).checkLine "show if A == x;" =
      .error (.malformedAtom (.invalidPredicate "A" "x")) := by
    decide +kernel
  have hmissing : (ofList ["A"]).checkLine "show if C == 1 & B == 2 & A == x;" =
      .error (.unknownElements ["C", "B"]) := by
    decide +kernel
  have hcheck : (ofList ["A"]).check "show if A == 1;" = .ok (Elements.ofList ["A"]) := by
    decide +kernel
  have hfault : (ofList ["A"]).check "show if A == 1;\nshow if B == 1;\nhide if C == 1;" =
      .error ⟨⟨2, "show if B == 1;"⟩, .unknownElements ["B"]⟩ := by
    decide +kernel
  obtain ⟨hlines, hdocuments⟩ := check_of_subset hsubset
  obtain ⟨-, -, -, hothers⟩ := (hlines _).2 _ hmissing
  refine ⟨hsubset, hpredicate, ?_, hmissing, (hothers ["C"]).2 (by decide +kernel), hcheck,
    ((hdocuments _).1 _ hcheck).1, ?_, hfault, (hdocuments _).2.1 _ hfault⟩
  · rw [(hlines _).1 fun names => by rw [hpredicate]; nofun]
    exact hpredicate
  · rw [(hdocuments _).2.2 _ hcheck]
    decide +kernel

end Layout

end DialogRules
