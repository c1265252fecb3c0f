import DialogRules.Rule

/-!
# Rule sets

A rule set has at most one rule for an action, in the order in which the
actions came first, and the names of the elements that its rules were
read from. A later rule for an action takes the place of the earlier one,
but the elements of the earlier one stay.
-/

namespace DialogRules

/-- The rules in force, at most one for an action, and the elements they
depend on. -/
structure RuleSet where
  /-- The elements that the rules refer to or once referred to. -/
  elements : Elements
  /-- The rules, in the order in which their actions came first. -/
  rules : List Rule
  /-- No action has two rules. -/
  nodup : (rules.map Rule.action).Nodup
deriving DecidableEq

namespace RuleSet

/-- No rules and no elements. -/
def empty : RuleSet := ⟨∅, [], List.nodup_nil⟩

instance : EmptyCollection RuleSet := ⟨empty⟩

instance : Inhabited RuleSet := ⟨∅⟩

@[ext]
theorem ext {rs ss : RuleSet} (he : rs.elements = ss.elements) (hr : rs.rules = ss.rules) :
    rs = ss := by
  cases rs; cases ss; cases he; cases hr; rfl

/-- How many rules there are. -/
def size (rs : RuleSet) : Nat := rs.rules.length

/-- Whether there is no rule. -/
def isEmpty (rs : RuleSet) : Bool := rs.rules.isEmpty

/-- The actions that have a rule, in the order in which they came
first. -/
def actions (rs : RuleSet) : List Action := rs.rules.map Rule.action

/-- The condition of the rule for an action, if it has one. -/
def get? (rs : RuleSet) (a : Action) : Option Condition :=
  (rs.rules.find? fun r => r.action = a).map Rule.condition

/-- The rules as a document, one on a line. -/
def render (rs : RuleSet) : String :=
  "\n".intercalate (rs.rules.map Rule.render)

/-- The rules with one more, which takes the place of the rule for its
action, or goes last if there is none. -/
def place (r : Rule) : List Rule → List Rule
  | [] => [r]
  | s :: rest => if s.action = r.action then r :: rest else s :: place r rest

theorem actions_place (r : Rule) (rules : List Rule) :
    (place r rules).map Rule.action =
      if r.action ∈ rules.map Rule.action then rules.map Rule.action
      else rules.map Rule.action ++ [r.action] := by
  induction rules with
  | nil => simp [place]
  | cons s rest ih =>
    by_cases h : s.action = r.action
    · simp [place, h]
    · have h' : r.action ≠ s.action := fun he => h he.symm
      rw [place, if_neg h, List.map_cons, ih]
      by_cases hm : r.action ∈ rest.map Rule.action <;> simp [hm, h']

/-- The rule set with one more rule, which takes the place of the rule
for its action, or goes last if there is none. -/
def insert (rs : RuleSet) (r : Rule) : RuleSet where
  elements := rs.elements
  rules := place r rs.rules
  nodup := by
    rw [actions_place]
    split
    · exact rs.nodup
    · rename_i h
      refine List.nodup_append.2 ⟨rs.nodup, by simp, fun a ha b hb hab => h ?_⟩
      rw [List.mem_singleton.1 hb] at hab
      exact hab ▸ ha

/-- One rule set and then another: the elements of both, and the rules of
the second put into the first one by one. -/
def extend (rs ss : RuleSet) : RuleSet :=
  { ss.rules.foldl insert rs with elements := rs.elements ++ ss.elements }

instance : Append RuleSet := ⟨extend⟩

end RuleSet

end DialogRules
