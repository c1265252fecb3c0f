import DialogRules.Proofs.Rule
import DialogRules.Proofs.RuleSet.OfRules

/-!
# Writing a rule set and compiling it again

The rules of a rule set are written one on a line. If their conditions are
normal, as those of every compiled rule set are, then compiling the text
gives the same rules in the same order, except those with an empty
condition, which are written as no statement (`ofDocument_render`). The
elements of rules that were replaced are not in the text, so they are lost
too. What is left lasts: writing and compiling it once more changes
nothing (`recompiled_ofDocument`). Of the rules that are written by hand,
whatever their atoms hold, only those with a normal condition that is not
empty read back (`rules_ofDocument_render_iff`).
-/

namespace DialogRules

/-- The rules that outlast being written: those with a condition that is
not empty. -/
def Rule.lastingOf (rules : List Rule) : List Rule :=
  rules.filter fun r => !r.condition.isEmpty

theorem Rule.mem_lastingOf {rules : List Rule} {r : Rule} :
    r ∈ lastingOf rules ↔ r ∈ rules ∧ r.condition.isEmpty = false := by
  simp [lastingOf]

/-- All rules last if none has an empty condition. -/
theorem Rule.lastingOf_eq_self_iff {rules : List Rule} :
    lastingOf rules = rules ↔ ∀ r ∈ rules, r.condition.isEmpty = false := by
  simp [lastingOf, List.filter_eq_self]

/-- What lasts lasts. -/
theorem Rule.lastingOf_lastingOf (rules : List Rule) :
    lastingOf (lastingOf rules) = lastingOf rules :=
  lastingOf_eq_self_iff.2 fun _ hr => (mem_lastingOf.1 hr).2

/-! ## The drafts of written rules -/

namespace Draft

variable {rules : List Rule} {lines : List Line}

/-- **Lines that rules were written on** are drafts of the rules that
last. -/
theorem map_ruleSet_of_render (hlines : lines.map Line.text = rules.map Rule.render)
    (hrules : ∀ r ∈ rules, r.condition.Normal) :
    (lines.filterMap ofLine?).map ruleSet = (Rule.lastingOf rules).map RuleSet.single ∧
      ((lines.filterMap ofLine?).flatMap fun d => d.reading.advisories) =
        Rule.advisoriesOf (Rule.lastingOf rules) := by
  induction rules generalizing lines with
  | nil =>
    have hnil : lines = [] := List.map_eq_nil_iff.1 hlines
    subst hnil
    exact ⟨rfl, rfl⟩
  | cons r rules ih =>
    obtain ⟨line, rest, rfl, hline, hrest⟩ := List.map_eq_cons_iff.1 hlines
    obtain ⟨hr, hrules⟩ := List.forall_mem_cons.1 hrules
    obtain ⟨hsets, hadvisories⟩ := ih hrest hrules
    cases hempty : r.condition.isEmpty with
    | true =>
      have hlasting : Rule.lastingOf (r :: rules) = Rule.lastingOf rules :=
        List.filter_cons_of_neg (by simp [hempty])
      rw [List.filterMap_cons_none (ofLine?_of_render_of_isEmpty hline hempty), hlasting]
      exact ⟨hsets, hadvisories⟩
    | false =>
      have hlasting : Rule.lastingOf (r :: rules) = r :: Rule.lastingOf rules :=
        List.filter_cons_of_pos (by simp [hempty])
      rw [List.filterMap_cons_some (ofLine?_of_render hline hr hempty), hlasting]
      refine ⟨?_, ?_⟩
      · rw [List.map_cons, List.map_cons, hsets]
        exact congrArg (· :: _) (ruleSet_eq_single rfl rfl)
      · rw [List.flatMap_cons, hadvisories, Rule.advisoriesOf_cons]
        rfl

end Draft

namespace RuleSet

variable {rs : RuleSet}

/-- The lines of the text of a rule set are those of its rules. -/
theorem map_text_render (h : ∀ r ∈ rs.rules, r.condition.Normal) :
    (Line.ofDocument rs.render).map Line.text = rs.rules.map Rule.render := by
  refine Line.map_text_intercalate fun t ht => ?_
  obtain ⟨r, hr, rfl⟩ := List.mem_map.1 ht
  exact Rule.isLine_render (h r hr).spelled

/-- **Compiling the text of a rule set** gives the rules that last, with
the elements that they ask about, and the advisories about their atoms. -/
theorem ofDocument_render (h : ∀ r ∈ rs.rules, r.condition.Normal) :
    ofDocument rs.render = ofRules (Rule.lastingOf rs.rules) ∧
      advisories rs.render = Rule.advisoriesOf (Rule.lastingOf rs.rules) := by
  obtain ⟨hsets, hadvisories⟩ := Draft.map_ruleSet_of_render (map_text_render h) h
  exact ⟨ofDocument_eq_ofRules hsets, hadvisories⟩

/-- What a rule set becomes when it is written and compiled again. -/
def recompiled (rs : RuleSet) : RuleSet := ofDocument rs.render

theorem nodup_lastingOf (rs : RuleSet) : ((Rule.lastingOf rs.rules).map Rule.action).Nodup :=
  rs.nodup.sublist (List.filter_sublist.map Rule.action)

/-- The rules that last are those that come out. -/
theorem rules_recompiled (h : ∀ r ∈ rs.rules, r.condition.Normal) :
    rs.recompiled.rules = Rule.lastingOf rs.rules := by
  rw [recompiled, (ofDocument_render h).1, rules_ofRules rs.nodup_lastingOf]

/-- Only what they ask about is an element still. -/
theorem elements_recompiled (h : ∀ r ∈ rs.rules, r.condition.Normal) :
    rs.recompiled.elements = Elements.ofList (Rule.subjectsOf (Rule.lastingOf rs.rules)) := by
  rw [recompiled, (ofDocument_render h).1, elements_ofRules]

/-- **The rule sets that survive being written** are those without an
empty condition and without an element that no rule asks about. -/
theorem recompiled_eq_self_iff (h : ∀ r ∈ rs.rules, r.condition.Normal) :
    rs.recompiled = rs ↔ (∀ r ∈ rs.rules, r.condition.isEmpty = false) ∧
      rs.elements = Elements.ofList (Rule.subjectsOf (Rule.lastingOf rs.rules)) := by
  have hrules := rules_recompiled h
  have helements := elements_recompiled h
  rw [← Rule.lastingOf_eq_self_iff]
  constructor
  · intro hself
    rw [hself] at hrules helements
    exact ⟨hrules.symm, helements⟩
  · rintro ⟨hlasting, hself⟩
    exact ext (helements.trans hself.symm) (hrules.trans hlasting)

/-- **The conditions of a compiled rule set are normal.** -/
theorem normal_of_mem_ofDocument {document : String} {r : Rule}
    (h : r ∈ (ofDocument document).rules) : r.condition.Normal := by
  obtain ⟨d, hd, -, hresult⟩ := exists_draft_of_mem_rules h
  obtain ⟨-, condition, -, hreading⟩ := Draft.of_mem_ofDocument hd
  rw [hreading] at hresult
  exact Condition.normal_of_result hresult

/-- What is written and compiled lasts. -/
theorem recompiled_recompiled (h : ∀ r ∈ rs.rules, r.condition.Normal) :
    rs.recompiled.recompiled = rs.recompiled := by
  have hagain : ∀ r ∈ rs.recompiled.rules, r.condition.Normal := fun r hr =>
    normal_of_mem_ofDocument hr
  have hrules := rules_recompiled h
  refine (recompiled_eq_self_iff hagain).2 ⟨?_, ?_⟩
  · intro r hr
    rw [hrules] at hr
    exact (Rule.mem_lastingOf.1 hr).2
  · rw [elements_recompiled h, hrules, Rule.lastingOf_lastingOf]

/-- **Compiling again.** When a compiled rule set is written and compiled
again, the rules that last come out in their order, the elements are the
subjects of their atoms in the order of first occurrence, and the
advisories are those about their atoms. Doing it once more changes
nothing, and doing it at all changes nothing exactly if no rule has an
empty condition and the elements are those already. -/
theorem recompiled_ofDocument (document : String) :
    (ofDocument document).recompiled.rules = Rule.lastingOf (ofDocument document).rules ∧
      (ofDocument document).recompiled.elements.names =
        (Rule.subjectsOf (Rule.lastingOf (ofDocument document).rules)).eraseDups ∧
      advisories (ofDocument document).render =
        Rule.advisoriesOf (Rule.lastingOf (ofDocument document).rules) ∧
      (ofDocument document).recompiled.recompiled = (ofDocument document).recompiled ∧
      ((ofDocument document).recompiled = ofDocument document ↔
        (∀ r ∈ (ofDocument document).rules, r.condition.isEmpty = false) ∧
          (ofDocument document).elements.names =
            (Rule.subjectsOf (Rule.lastingOf (ofDocument document).rules)).eraseDups) := by
  have hnormal : ∀ r ∈ (ofDocument document).rules, r.condition.Normal := fun r hr =>
    normal_of_mem_ofDocument hr
  -- equal names are equal elements, so both can be said of the names
  have hnames : ∀ es : Elements,
      es.names = (Rule.subjectsOf (Rule.lastingOf (ofDocument document).rules)).eraseDups ↔
        es = Elements.ofList (Rule.subjectsOf (Rule.lastingOf (ofDocument document).rules)) := by
    intro es
    rw [← Elements.names_ofList]
    exact ⟨Elements.ext, fun he => he ▸ rfl⟩
  refine ⟨rules_recompiled hnormal, (hnames _).2 (elements_recompiled hnormal),
    (ofDocument_render hnormal).2, recompiled_recompiled hnormal, ?_⟩
  rw [hnames]
  exact recompiled_eq_self_iff hnormal

/-! ## One rule -/

theorem render_single (r : Rule) : (single r).render = r.render := by
  simp [render, single]

/-- Compiling the text of a normal rule gives the rule, if it lasts, and
the elements that it asks about. -/
theorem ofDocument_render_rule {r : Rule} (h : r.condition.Normal) :
    (ofDocument r.render).rules = Rule.lastingOf [r] ∧
      (ofDocument r.render).elements = Elements.ofList (Rule.subjectsOf (Rule.lastingOf [r])) := by
  have hrules : ∀ s ∈ (single r).rules, s.condition.Normal := fun s hs =>
    List.mem_singleton.1 hs ▸ h
  rw [← render_single]
  exact ⟨rules_recompiled hrules, elements_recompiled hrules⟩

/-- **The rules that read back as themselves** are those with a normal
condition that is not empty. Nothing is asked of the rule that is written:
its atoms may hold line breaks, semicolons and parentheses, and what these
break the text into is never the rule again. -/
theorem rules_ofDocument_render_iff (r : Rule) :
    ((ofDocument r.render).rules = [r] ↔ r.condition.isEmpty = false ∧ r.condition.Normal) ∧
      (r.condition.isEmpty = false ∧ r.condition.Normal →
        (ofDocument r.render).elements = r.condition.elements) := by
  have hlasting : Rule.lastingOf [r] = [r] ↔ r.condition.isEmpty = false := by
    rw [Rule.lastingOf_eq_self_iff]
    exact List.forall_mem_singleton
  refine ⟨⟨fun hrules => ?_, fun ⟨hne, hnormal⟩ => ?_⟩, fun ⟨hne, hnormal⟩ => ?_⟩
  · -- a compiled rule is normal, which leaves only the empty condition to exclude
    have hnormal : r.condition.Normal :=
      normal_of_mem_ofDocument (hrules ▸ List.mem_singleton_self r)
    rw [(ofDocument_render_rule hnormal).1] at hrules
    exact ⟨hlasting.1 hrules, hnormal⟩
  · exact (ofDocument_render_rule hnormal).1.trans (hlasting.2 hne)
  · rw [(ofDocument_render_rule hnormal).2, hlasting.2 hne]
    simp [Rule.subjectsOf, Condition.elements]

/-- A semicolon for a predicate does not end the statement, and an empty
group and a group of a lone connective are kept. A predicate that ends the
statement and starts another one is not. -/
theorem rules_ofDocument_render_hostile :
    (ofDocument "show if A ( ; & () (|);").rules =
        [⟨.reveal, .sequence [.atom ⟨"A", "(", ";"⟩, .connective .and, .group (.sequence []),
          .group (.sequence [.connective .or])]⟩] ∧
      (ofDocument "show if A ( ; & () (|);").elements = Elements.ofList ["A"] ∧
      (ofDocument "show if A == 1;\nhide if B == 2;").rules ≠
        [⟨.reveal, .atom ⟨"A", "==", "1;\nhide if B == 2"⟩⟩] := by
  have hkept := rules_ofDocument_render_iff ⟨.reveal, .sequence [.atom ⟨"A", "(", ";"⟩,
    .connective .and, .group (.sequence []), .group (.sequence [.connective .or])]⟩
  have hbroken := rules_ofDocument_render_iff ⟨.reveal, .atom ⟨"A", "==", "1;\nhide if B == 2"⟩⟩
  refine ⟨hkept.1.2 (by decide +kernel), hkept.2 (by decide +kernel), fun hrules => ?_⟩
  exact absurd (hbroken.1.1 hrules) (by decide +kernel)

end RuleSet

end DialogRules
