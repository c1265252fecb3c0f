import DialogRules.Vocabulary
import DialogRules.Text.Word

/-!
# Atoms

An atom compares one element with a property or a number. Its three
parts are kept as they were written, so that a malformed atom survives
reading unchanged; `compareOp?` and `predicate?` are the typed view of
the last two, and an atom is well formed when it has both.
-/

namespace DialogRules

/-- What an element is compared with: a property, or a number given by
its digits. -/
inductive Predicate where
  | property (property : Property)
  | number (digits : String)
deriving DecidableEq

/-- The predicate that a text stands for, if it is the name of a property
or a numeral. -/
def Predicate.ofText? (t : String) : Option Predicate :=
  match Vocabulary.ofText? t with
  | some p => some (.property p)
  | none => if Text.isNumeral t then some (.number t) else none

/-- A comparison of an element with a predicate, as it was written. -/
structure Atom where
  /-- The name of the element. -/
  subject : String
  /-- The text in the place of the comparison. -/
  operator : String
  /-- The text in the place of the predicate. -/
  predicate : String
deriving DecidableEq

namespace Atom

/-- The comparison that the atom makes, if its operator is one. -/
def compareOp? (a : Atom) : Option CompareOp :=
  Vocabulary.ofText? a.operator

/-- What the atom compares with, if its predicate is a property or a
number. -/
def predicate? (a : Atom) : Option Predicate :=
  Predicate.ofText? a.predicate

/-- Whether the atom has both a comparison and something to compare
with. -/
def isWellFormed (a : Atom) : Bool :=
  a.compareOp?.isSome && a.predicate?.isSome

/-- The three parts with one space between them. -/
def render (a : Atom) : String :=
  a.subject ++ " " ++ a.operator ++ " " ++ a.predicate

end Atom

/-- A value written into the predicate of an atom. -/
inductive Operand where
  | integer (value : Int)
  | property (property : Property)
  | text (text : String)

/-- The text of an operand. An integer is written in decimal, with a
minus sign below zero; what else is written may be anything. -/
def Operand.render : Operand → String
  | .integer n => toString n
  | .property p => p.text
  | .text t => t

/-- An element, as the start of an atom about it. -/
structure Element where
  /-- The name of the element. -/
  name : String

namespace Element

/-- The atom that compares an element with an operand. -/
def compare (e : Element) (op : CompareOp) (operand : Operand) : Atom :=
  ⟨e.name, op.text, operand.render⟩

end Element

end DialogRules
