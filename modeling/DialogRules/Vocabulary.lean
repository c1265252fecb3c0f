/-!
# The fixed words

Four vocabularies are built into the rule language: the actions a rule
can take, the comparisons between an element and its predicate, the
properties an element can be tested for, and the connectives between
operands. Each is finite, each member has one text, and no two members
share one, so reading a text back gives the member it was written for
and nothing else (`Vocabulary.ofText?_eq_some_iff`).
-/

namespace DialogRules

/-- A finite vocabulary: its members in their own order, each with a text
of its own. -/
class Vocabulary (α : Type) where
  /-- The members, in the order of the vocabulary. -/
  all : List α
  /-- The text a member is written with. -/
  text : α → String
  /-- No member is missing from `all`. -/
  mem_all : ∀ a, a ∈ all
  /-- No two members share a text. -/
  text_inj : ∀ a b, text a = text b → a = b

namespace Vocabulary

variable {α : Type} [Vocabulary α]

/-- The member written with a text, if there is one. -/
def ofText? (t : String) : Option α :=
  (all : List α).find? fun a => text a == t

/-- The members that occur in a list, once each, in the order of the
vocabulary. -/
def sorted [DecidableEq α] (l : List α) : List α :=
  (all : List α).filter (· ∈ l)

/-- **Reading inverts writing**, and reads nothing else. -/
theorem ofText?_eq_some_iff {t : String} {a : α} : ofText? t = some a ↔ text a = t := by
  constructor
  · intro h
    simpa using List.find?_some h
  · rintro rfl
    cases hf : (ofText? (text a) : Option α) with
    | none =>
      have := List.find?_eq_none.1 hf a (mem_all a)
      simp at this
    | some b =>
      have hb : text b = text a := by simpa using List.find?_some hf
      rw [text_inj b a hb]

theorem ofText?_text (a : α) : ofText? (text a) = some a :=
  ofText?_eq_some_iff.2 rfl

end Vocabulary

/-- What a rule does to the element it is attached to when its condition
holds. -/
inductive Action where
  | enable
  | disable
  /-- Written "show". -/
  | reveal
  | hide
  | select
  | unselect
  | check
  | uncheck
deriving DecidableEq

/-- The word that an action is written with. -/
def Action.text : Action → String
  | .enable => "enable"
  | .disable => "disable"
  | .reveal => "show"
  | .hide => "hide"
  | .select => "select"
  | .unselect => "unselect"
  | .check => "check"
  | .uncheck => "uncheck"

instance : Vocabulary Action where
  all := [.enable, .disable, .reveal, .hide, .select, .unselect, .check, .uncheck]
  text := Action.text
  mem_all a := by cases a <;> decide
  text_inj a b := by cases a <;> cases b <;> decide

/-- The comparisons between an element and its predicate. -/
inductive CompareOp where
  | eq
  | ne
  | ge
  | le
deriving DecidableEq

/-- The symbol that a comparison is written with. -/
def CompareOp.text : CompareOp → String
  | .eq => "=="
  | .ne => "!="
  | .ge => ">="
  | .le => "<="

instance : Vocabulary CompareOp where
  all := [.eq, .ne, .ge, .le]
  text := CompareOp.text
  mem_all a := by cases a <;> decide
  text_inj a b := by cases a <;> cases b <;> decide

/-- The states an element can be tested for. -/
inductive Property where
  | enabled
  | visible
  | selected
  | checked
deriving DecidableEq

/-- The word that a property is written with. -/
def Property.text : Property → String
  | .enabled => "enabled"
  | .visible => "visible"
  | .selected => "selected"
  | .checked => "checked"

instance : Vocabulary Property where
  all := [.enabled, .visible, .selected, .checked]
  text := Property.text
  mem_all a := by cases a <;> decide
  text_inj a b := by cases a <;> cases b <;> decide

/-- The connectives between two operands of one level. Neither binds
tighter than the other. -/
inductive Connective where
  | and
  | or
deriving DecidableEq

/-- The symbol that a connective is written with. -/
def Connective.text : Connective → String
  | .and => "&"
  | .or => "|"

instance : Vocabulary Connective where
  all := [.and, .or]
  text := Connective.text
  mem_all a := by cases a <;> decide
  text_inj a b := by cases a <;> cases b <;> decide

/-- The word between the action of a rule and its condition. -/
def ifWord : String := "if"

end DialogRules
