import DialogRules.Proofs.Layout.Language
import DialogRules.Proofs.Layout.Load
import DialogRules.Proofs.RuleSet.RoundTrip

/-!
# Writing a loaded rule set and loading it again

A rule of an accepted document has a normal condition with well-formed
atoms about known elements, however oddly its line was written. Unless
the condition is empty, the line that the rule is written on is accepted
too (`admits_render`). So a loaded rule set can be written and loaded again
if no rule was replaced when it was compiled, and none has an empty
condition (`load_render_iff`). Such a condition is what `()` is read as:
the check accepts it, and it has no text.
-/

namespace DialogRules

/-- Pieces that keep to the vocabularies have no semicolon and no plus
sign. -/
theorem Piece.IsStrict.text_ne {p : Piece} (h : p.IsStrict) :
    ∀ t ∈ p.tokens, t.text ≠ ";" ∧ t.text ≠ "+" := by
  have hword : ∀ s, Text.isWord s = true → s ≠ ";" ∧ s ≠ "+" := by
    rintro s hs
    constructor <;> rintro rfl <;> cases hs
  have hop : ∀ op : CompareOp, op.text ≠ ";" ∧ op.text ≠ "+" := by
    intro op
    cases op <;> decide
  intro t ht
  cases p with
  | openParen =>
    rw [List.mem_singleton.1 ht]
    decide
  | closeParen =>
    rw [List.mem_singleton.1 ht]
    decide
  | connective c =>
    rw [List.mem_singleton.1 ht]
    cases c <;> decide
  | idle u =>
    obtain ⟨op, hu⟩ := h
    rw [List.mem_singleton.1 ht, hu]
    exact hop op
  | atom a =>
    obtain ⟨hsubject, ⟨op, hoperator⟩, hpredicate⟩ := h
    simp only [tokens, List.mem_cons, List.not_mem_nil, or_false] at ht
    rcases ht with rfl | rfl | rfl
    · exact hword _ hsubject
    · exact hoperator ▸ hop op
    · rcases hpredicate with ⟨p, hp⟩ | hnum
      · exact hword _ (by rw [hp]; cases p <;> decide)
      · exact hword _ (Text.isWord_of_isNumeral hnum)

namespace Layout

variable {layout : Layout} {es : Elements} {document : String}

/-- **The line of a rule is admitted** if the condition is normal and not
empty and its atoms are well formed and about known elements. -/
theorem admits_render {r : Rule} (hnormal : r.condition.Normal)
    (hne : r.condition.isEmpty = false)
    (hatoms : ∀ a ∈ r.condition.atoms, a.isWellFormed = true ∧ a.subject ∈ layout) :
    layout.Admits r.render r.action r.condition.render r.condition.pieces := by
  have hstrict : ∀ p ∈ r.condition.pieces, p.IsStrict :=
    Condition.isStrict_of_mem_pieces hnormal.spelled fun a ha => (hatoms a ha).1
  have hspells := r.condition.spells_render hnormal.spelled
  refine
    { written := Rule.written_render hnormal.spelled hne
      lexemes := ?_
      tokens := hspells.ofString_eq
      strict := hstrict
      nested := Condition.nested_pieces hnormal
      known := fun a ha => (hatoms a (r.condition.atomsOf_pieces ▸ ha)).2 }
  intro l hl
  rw [hspells.lexemes_eq] at hl
  obtain ⟨t, ht, rfl⟩ := List.mem_map.1 hl
  obtain ⟨p, hp, htp⟩ := List.mem_flatMap.1 ht
  exact ⟨t, rfl, (hstrict p hp).text_ne t htp⟩

/-- Lines are accepted together if each is. -/
theorem exists_checkLines {lines : List Line}
    (h : ∀ line ∈ lines, ∃ es, layout.checkLine line.text = .ok es) :
    ∃ es, layout.checkLines lines = .ok es := by
  induction lines with
  | nil => exact ⟨∅, rfl⟩
  | cons line lines ih =>
    obtain ⟨⟨fs, hfs⟩, hrest⟩ := List.forall_mem_cons.1 h
    obtain ⟨gs, hgs⟩ := ih hrest
    exact ⟨fs ++ gs, checkLines_cons_eq_ok_iff.2 ⟨fs, gs, hfs, hgs, rfl⟩⟩

/-- **The text of a rule set is accepted** if the conditions are normal
and not empty and their atoms are well formed and about known elements. -/
theorem exists_check_render {rs : RuleSet} (hnormal : ∀ r ∈ rs.rules, r.condition.Normal)
    (hne : ∀ r ∈ rs.rules, r.condition.isEmpty = false)
    (hatoms : ∀ r ∈ rs.rules, ∀ a ∈ r.condition.atoms,
      a.isWellFormed = true ∧ a.subject ∈ layout) :
    ∃ es, layout.check rs.render = .ok es := by
  refine exists_checkLines fun line hline => ?_
  have htext : line.text ∈ rs.rules.map Rule.render := by
    rw [← RuleSet.map_text_render hnormal]
    exact List.mem_map_of_mem hline
  obtain ⟨r, hr, htext⟩ := List.mem_map.1 htext
  have hadmits := admits_render (hnormal r hr) (hne r hr) (hatoms r hr)
  exact ⟨_, htext ▸ hadmits.checkLine_eq⟩

/-! ## Documents in which no rule is replaced -/

/-- Drafts that the check vouches for stand for one rule each. -/
theorem AccountsFor.exists_rules {lines : List Line} {ds : List Draft}
    (h : layout.AccountsFor lines ds es) :
    ∃ rules : List Rule, ds.map Draft.ruleSet = rules.map RuleSet.single ∧
      rules.map Rule.action = ds.map Draft.action := by
  have hall : ∀ ds : List Draft, (∀ d ∈ ds, layout.Vouches d) →
      ∃ rules : List Rule, ds.map Draft.ruleSet = rules.map RuleSet.single ∧
        rules.map Rule.action = ds.map Draft.action := by
    intro ds hds
    induction ds with
    | nil => exact ⟨[], rfl, rfl⟩
    | cons d ds ih =>
      obtain ⟨hd, hrest⟩ := List.forall_mem_cons.1 hds
      obtain ⟨rules, hsets, hactions⟩ := ih hrest
      obtain ⟨c, hc⟩ := hd.parsed
      have hsingle : d.ruleSet = RuleSet.single ⟨d.action, c⟩ :=
        Draft.ruleSet_eq_single hc (hd.atoms c hc).symm
      refine ⟨⟨d.action, c⟩ :: rules, ?_, ?_⟩
      · rw [List.map_cons, List.map_cons, hsingle, hsets]
      · rw [List.map_cons, List.map_cons, hactions]
  exact hall ds h.vouches

/-- The drafts have the actions of their lines, so these are distinct if
those are. -/
theorem AccountsFor.nodup_actions
    (h : layout.AccountsFor (Line.ofDocument document) (Draft.ofDocument document) es)
    (hactions : ((Line.ofDocument document).map Line.action?).Nodup) :
    ((Draft.ofDocument document).map Draft.action).Nodup := by
  rw [h.map_action?] at hactions
  exact List.Pairwise.of_map (fun a => some a.text) (fun a b hab he => hab (he ▸ rfl)) hactions

/-- **Nothing is left over of replaced rules** where there are none: the
elements of the rule set are the subjects of its rules. -/
theorem elements_ofDocument_of_check (h : layout.check document = .ok es)
    (hactions : ((Line.ofDocument document).map Line.action?).Nodup) :
    (RuleSet.ofDocument document).elements =
      Elements.ofList (Rule.subjectsOf (RuleSet.ofDocument document).rules) := by
  have haccounts := accountsFor_of_check h
  obtain ⟨rules, hsets, hrules⟩ := haccounts.exists_rules
  have hnodup : (rules.map Rule.action).Nodup := hrules ▸ haccounts.nodup_actions hactions
  rw [RuleSet.ofDocument_eq_ofRules hsets, RuleSet.rules_ofRules hnodup, RuleSet.elements_ofRules]

theorem load_eq_ok_iff {rs : RuleSet} :
    layout.load document = .ok rs ↔
      (∃ es, layout.check document = .ok es) ∧ RuleSet.ofDocument document = rs := by
  rw [load]
  cases layout.check document with
  | error e => simp
  | ok es => simp

/-- **A loaded rule set can be written and loaded again**, and comes out
as it was, if no two lines of the document name the same action and no
rule has an empty condition. If one has, it does not. -/
theorem load_render_iff {rs : RuleSet} (hload : layout.load document = .ok rs)
    (hactions : ((Line.ofDocument document).map Line.action?).Nodup) :
    layout.load rs.render = .ok rs ↔ ∀ r ∈ rs.rules, r.condition.isEmpty = false := by
  obtain ⟨⟨es, hcheck⟩, rfl⟩ := load_eq_ok_iff.1 hload
  have haccounts := accountsFor_of_check hcheck
  have hself := @RuleSet.recompiled_eq_self_iff (RuleSet.ofDocument document)
    fun r hr => RuleSet.normal_of_mem_ofDocument hr
  rw [load_eq_ok_iff, ← RuleSet.recompiled, hself]
  constructor
  · rintro ⟨-, hne, -⟩
    exact hne
  · intro hne
    have haccepted : ∃ es, layout.check (RuleSet.ofDocument document).render = .ok es := by
      refine exists_check_render (fun r hr => RuleSet.normal_of_mem_ofDocument hr) hne ?_
      intro r hr a ha
      obtain ⟨hformed, hsubject⟩ := haccounts.isWellFormed_of_mem_rules hr ha
      exact ⟨hformed, haccounts.known _ hsubject⟩
    refine ⟨haccepted, hne, ?_⟩
    rw [Rule.lastingOf_eq_self_iff.2 hne]
    exact elements_ofDocument_of_check hcheck hactions

/-- A doubled connective and an empty group are kept here, a doubled pair
of parentheses and a lone comparison are not, and nothing of it
matters. -/
theorem load_render_odd_lines :
    (ofList ["A"]).load "show if ((A == 1)) && ();\nhide if A >= 3 !=;" =
        .ok (RuleSet.ofRules
          [⟨.reveal, .sequence [.group (.atom ⟨"A", "==", "1"⟩), .connective .and,
            .connective .and, .group (.sequence [])]⟩, ⟨.hide, .atom ⟨"A", ">=", "3"⟩⟩]) ∧
      ((Line.ofDocument "show if ((A == 1)) && ();\nhide if A >= 3 !=;").map
        Line.action?).Nodup ∧
      (ofList ["A"]).load (RuleSet.ofRules
          [⟨.reveal, .sequence [.group (.atom ⟨"A", "==", "1"⟩), .connective .and,
            .connective .and, .group (.sequence [])]⟩, ⟨.hide, .atom ⟨"A", ">=", "3"⟩⟩]).render =
        .ok (RuleSet.ofRules
          [⟨.reveal, .sequence [.group (.atom ⟨"A", "==", "1"⟩), .connective .and,
            .connective .and, .group (.sequence [])]⟩, ⟨.hide, .atom ⟨"A", ">=", "3"⟩⟩]) := by
  have hload : (ofList ["A"]).load "show if ((A == 1)) && ();\nhide if A >= 3 !=;" =
      .ok (RuleSet.ofRules
        [⟨.reveal, .sequence [.group (.atom ⟨"A", "==", "1"⟩), .connective .and,
          .connective .and, .group (.sequence [])]⟩, ⟨.hide, .atom ⟨"A", ">=", "3"⟩⟩]) := by
    decide +kernel
  have hactions : ((Line.ofDocument "show if ((A == 1)) && ();\nhide if A >= 3 !=;").map
      Line.action?).Nodup := by
    decide +kernel
  exact ⟨hload, hactions, (load_render_iff hload hactions).2 (by decide +kernel)⟩

/-- **A group of nothing is accepted and does not come back**: its
condition is the empty one, and the line that this is written on is no
statement. -/
theorem not_load_render_empty_group :
    (ofList []).load "show if ();" = .ok (RuleSet.single ⟨.reveal, .sequence []⟩) ∧
      ((Line.ofDocument "show if ();").map Line.action?).Nodup ∧
      (ofList []).load (RuleSet.single ⟨.reveal, .sequence []⟩).render =
        .error (.refused ⟨⟨1, "show if ;"⟩, .malformedStatement⟩) := by
  decide +kernel

end Layout

end DialogRules
