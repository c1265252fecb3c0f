import Mathlib.Data.List.Nodup
import DialogRules.Proofs.Elements
import DialogRules.Proofs.RuleSet.Basic

/-!
# Looking up actions

A rule set is determined by its elements, the order of its actions and the
condition that each action has (`RuleSet.ext_get?`). A rule that is put in
changes the condition of its own action and of no other (`get?_insert`), so
of many rules the last for an action counts (`get?_foldl_insert`), and of
two rule sets the second where it has a rule (`get?_append`). It follows
that rule sets may be put behind each other in any grouping
(`append_assoc`).
-/

namespace DialogRules

namespace Rule

/-- The last of some rules for an action. -/
def lastFor? (a : Action) (rules : List Rule) : Option Rule :=
  (rules.filter fun r => r.action = a).getLast?

variable {rules : List Rule} {r : Rule} {a : Action}

theorem lastFor?_eq_find?_reverse (a : Action) (rules : List Rule) :
    lastFor? a rules = rules.reverse.find? fun r => r.action = a :=
  List.getLast?_filter

/-- Of rules with distinct actions only one can be found for an action. -/
theorem find?_eq_some_iff (h : (rules.map Rule.action).Nodup) :
    (rules.find? fun r => r.action = a) = some r ↔ r ∈ rules ∧ r.action = a := by
  induction rules with
  | nil => simp
  | cons s rules ih =>
    obtain ⟨hs, hrules⟩ := List.nodup_cons.1 h
    by_cases hsa : s.action = a
    · rw [List.find?_cons_of_pos (by simpa using hsa)]
      constructor
      · rintro ⟨⟩
        exact ⟨List.mem_cons_self, hsa⟩
      · rintro ⟨hr, hra⟩
        rcases List.mem_cons.1 hr with rfl | hr
        · rfl
        · -- a second rule for the action would repeat it
          rw [hsa, ← hra] at hs
          exact absurd (List.mem_map_of_mem hr) hs
    · have hne : r.action = a → r ≠ s := fun hra he => hsa (he ▸ hra)
      rw [List.find?_cons_of_neg (by simpa using hsa), ih hrules, List.mem_cons]
      constructor
      · rintro ⟨hr, hra⟩
        exact ⟨.inr hr, hra⟩
      · rintro ⟨hr, hra⟩
        exact ⟨hr.resolve_left (hne hra), hra⟩

/-- So the last of them is the first. -/
theorem lastFor?_eq_find? (h : (rules.map Rule.action).Nodup) :
    lastFor? a rules = rules.find? fun r => r.action = a := by
  have hrev : (rules.reverse.map Rule.action).Nodup := by
    rw [List.map_reverse]
    exact List.nodup_reverse.2 h
  refine Option.ext fun r => ?_
  rw [lastFor?_eq_find?_reverse, find?_eq_some_iff hrev, find?_eq_some_iff h, List.mem_reverse]

/-- Rules whose conditions can be looked up under their actions are read off
the actions. -/
theorem filterMap_map_action {found : Action → Option Condition}
    {condition : Rule → Condition} (h : ∀ r ∈ rules, found r.action = some (condition r)) :
    ((rules.map Rule.action).filterMap fun a => (found a).map (Rule.mk a)) =
      rules.map fun r => ⟨r.action, condition r⟩ := by
  induction rules with
  | nil => rfl
  | cons r rules ih =>
    obtain ⟨hr, hrules⟩ := List.forall_mem_cons.1 h
    simp only [List.map_cons, List.filterMap_cons, hr, Option.map_some, ih hrules]

end Rule

namespace RuleSet

variable {rs ss : RuleSet} {r : Rule} {a : Action} {c : Condition}

/-! ## What determines a rule set -/

theorem get?_eq_some_iff : rs.get? a = some c ↔ ⟨a, c⟩ ∈ rs.rules := by
  rw [get?, Option.map_eq_some_iff]
  simp only [Rule.find?_eq_some_iff rs.nodup]
  constructor
  · rintro ⟨r, ⟨hr, rfl⟩, rfl⟩
    exact hr
  · intro h
    exact ⟨⟨a, c⟩, ⟨h, rfl⟩, rfl⟩

/-- A rule is found under its action. -/
theorem get?_action (h : r ∈ rs.rules) : rs.get? r.action = some r.condition :=
  get?_eq_some_iff.2 h

theorem rules_eq_filterMap (rs : RuleSet) :
    rs.rules = rs.actions.filterMap fun a => (rs.get? a).map (Rule.mk a) := by
  rw [actions, Rule.filterMap_map_action fun r hr => get?_action hr, List.map_id']

/-- **Elements, actions and conditions determine a rule set.** -/
theorem ext_get? (helements : rs.elements = ss.elements) (hactions : rs.actions = ss.actions)
    (hget : ∀ a, rs.get? a = ss.get? a) : rs = ss := by
  refine ext helements ?_
  rw [rules_eq_filterMap rs, rules_eq_filterMap ss, hactions]
  simp only [hget]

/-! ## What putting in rules does -/

theorem find?_place (r : Rule) (rules : List Rule) (a : Action) :
    ((place r rules).find? fun s => s.action = a) =
      if r.action = a then some r else rules.find? fun s => s.action = a := by
  induction rules with
  | nil => by_cases hra : r.action = a <;> simp [place, hra]
  | cons s rules ih =>
    by_cases hsr : s.action = r.action
    · rw [place, if_pos hsr]
      by_cases hra : r.action = a <;> simp [hsr, hra]
    · rw [place, if_neg hsr]
      by_cases hsa : s.action = a
      · have hra : r.action ≠ a := fun he => hsr (hsa.trans he.symm)
        simp [hsa, hra]
      · rw [List.find?_cons_of_neg (by simpa using hsa), ih,
          List.find?_cons_of_neg (by simpa using hsa)]

/-- **A rule that is put in changes its own action only.** -/
theorem get?_insert (rs : RuleSet) (r : Rule) (a : Action) :
    (rs.insert r).get? a = if r.action = a then some r.condition else rs.get? a := by
  rw [get?, insert, find?_place]
  split
  · rfl
  · rfl

/-- **Of many rules the last for an action counts.** -/
theorem get?_foldl_insert (rs : RuleSet) (rules : List Rule) (a : Action) :
    (rules.foldl insert rs).get? a =
      ((Rule.lastFor? a rules).map Rule.condition).or (rs.get? a) := by
  induction rules generalizing rs with
  | nil => rfl
  | cons r rules ih =>
    rw [List.foldl_cons, ih, get?_insert, Rule.lastFor?, Rule.lastFor?]
    by_cases hra : r.action = a
    · rw [if_pos hra, List.filter_cons_of_pos (by simpa using hra), List.getLast?_cons]
      cases (rules.filter fun r => r.action = a).getLast? with
      | none => rfl
      | some s => rfl
    · rw [if_neg hra, List.filter_cons_of_neg (by simpa using hra)]

/-! ## One rule set behind another -/

/-- **Of two rule sets the second counts**, for the actions that it has a
rule for. -/
theorem get?_append (rs ss : RuleSet) (a : Action) :
    (rs ++ ss).get? a = (ss.get? a).or (rs.get? a) := by
  have hfold : (rs ++ ss).get? a = (ss.rules.foldl insert rs).get? a := rfl
  rw [hfold, get?_foldl_insert, Rule.lastFor?_eq_find? ss.nodup]
  rfl

@[simp] theorem append_empty (rs : RuleSet) : rs ++ ∅ = rs := rfl

@[simp] theorem empty_append (rs : RuleSet) : ∅ ++ rs = rs := by
  refine ext_get? (Elements.empty_append rs.elements) ?_ fun a => ?_
  · rw [actions_append, actions_empty, foldl_addLast_nil]
    exact eraseDups_eq_self rs.nodup
  · rw [get?_append]
    exact Option.or_none

/-- **Rule sets may be put behind each other in any grouping.** -/
theorem append_assoc (rs ss ts : RuleSet) : rs ++ ss ++ ts = rs ++ (ss ++ ts) := by
  refine ext_get? (Elements.extend_assoc _ _ _) ?_ fun a => ?_
  · simp only [actions_append, foldl_addLast_assoc]
  · simp only [get?_append, Option.or_assoc]

theorem actions_append_eq (rs ss : RuleSet) :
    (rs ++ ss).actions = rs.actions ++ ss.actions.filter (· ∉ rs.actions) := by
  have hnodup : (ss.actions.filter (· ∉ rs.actions)).Nodup := ss.nodup.sublist List.filter_sublist
  rw [actions_append, foldl_addLast, eraseDups_eq_self hnodup]

/-- **What two rule sets come to.** An action of the first keeps its place
and has the condition of the second if there is one; the rules for other
actions follow in their order. -/
theorem rules_append (rs ss : RuleSet) :
    (rs ++ ss).rules =
      (rs.rules.map fun r => ⟨r.action, (ss.get? r.action).getD r.condition⟩) ++
        ss.rules.filter fun r => r.action ∉ rs.actions := by
  have hfirst : ∀ r ∈ rs.rules,
      (rs ++ ss).get? r.action = some ((ss.get? r.action).getD r.condition) := by
    intro r hr
    rw [get?_append, get?_action hr]
    cases ss.get? r.action with
    | none => rfl
    | some c => rfl
  have hsecond : ∀ r ∈ ss.rules.filter fun r => r.action ∉ rs.actions,
      (rs ++ ss).get? r.action = some r.condition := by
    intro r hr
    rw [get?_append, get?_action (List.mem_filter.1 hr).1]
    rfl
  have hactions : ss.actions.filter (· ∉ rs.actions) =
      (ss.rules.filter fun r => r.action ∉ rs.actions).map Rule.action :=
    List.filter_map
  rw [rules_eq_filterMap (rs ++ ss), actions_append_eq, List.filterMap_append, hactions,
    Rule.filterMap_map_action hsecond, List.map_id']
  congr 1
  exact Rule.filterMap_map_action hfirst

end RuleSet

end DialogRules
