import DialogRules.Proofs.Occurrence
import DialogRules.RuleSet.Basic

/-!
# What a rule set is made of

A rule that is put into a rule set may take the place of another, and so
may the rules of a second set that is put behind a first. No rule comes
from elsewhere, and no action loses its rule: the rules are among those
of the two sets (`mem_rules_append`), and the actions are those of both
(`actions_append`).
-/

namespace DialogRules

namespace RuleSet

variable {rs ss : RuleSet} {r s : Rule} {a : Action}

@[simp] theorem elements_empty : (∅ : RuleSet).elements = ∅ := rfl

@[simp] theorem rules_empty : (∅ : RuleSet).rules = [] := rfl

@[simp] theorem actions_empty : (∅ : RuleSet).actions = [] := rfl

@[simp] theorem elements_append (rs ss : RuleSet) :
    (rs ++ ss).elements = rs.elements ++ ss.elements := rfl

/-- A rule that is placed leaves other rules or drops one. -/
theorem mem_of_mem_place {rules : List Rule} (h : s ∈ place r rules) : s = r ∨ s ∈ rules := by
  induction rules with
  | nil => exact .inl (List.mem_singleton.1 h)
  | cons t rest ih =>
    rw [place] at h
    split at h
    · rcases List.mem_cons.1 h with hs | hs
      · exact .inl hs
      · exact .inr (List.mem_cons_of_mem t hs)
    · rcases List.mem_cons.1 h with hs | hs
      · exact .inr (hs ▸ List.mem_cons_self)
      · rcases ih hs with hr | hrest
        · exact .inl hr
        · exact .inr (List.mem_cons_of_mem t hrest)

/-- **The rules of two sets together** are among the rules of each. -/
theorem mem_rules_append (h : r ∈ (rs ++ ss).rules) : r ∈ rs.rules ∨ r ∈ ss.rules := by
  -- the rules of the second set go in one by one, and the first set grows with each
  have hfold : ∀ (rules : List Rule) (rs : RuleSet), r ∈ (rules.foldl insert rs).rules →
      r ∈ rs.rules ∨ r ∈ rules := by
    intro rules
    induction rules with
    | nil => exact fun rs hr => .inl hr
    | cons s rules ih =>
      intro rs hr
      rcases ih (rs.insert s) hr with hinsert | hrest
      · rcases mem_of_mem_place hinsert with hs | hrs
        · exact .inr (hs ▸ List.mem_cons_self)
        · exact .inl hrs
      · exact .inr (List.mem_cons_of_mem s hrest)
  exact hfold ss.rules rs h

/-- Every action keeps its place, and the action of the new rule goes last
if it has no rule yet. -/
theorem actions_insert (rs : RuleSet) (r : Rule) :
    (rs.insert r).actions = addLast rs.actions r.action :=
  actions_place r rs.rules

theorem actions_foldl_insert (rs : RuleSet) (rules : List Rule) :
    (rules.foldl insert rs).actions = (rules.map Rule.action).foldl addLast rs.actions := by
  induction rules generalizing rs with
  | nil => rfl
  | cons r rules ih => rw [List.foldl_cons, ih, actions_insert, List.map_cons, List.foldl_cons]

/-- **The actions of two sets together** are those of the first and then
the new ones of the second. -/
theorem actions_append (rs ss : RuleSet) :
    (rs ++ ss).actions = ss.actions.foldl addLast rs.actions :=
  actions_foldl_insert rs ss.rules

end RuleSet

end DialogRules
