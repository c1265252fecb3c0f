import DialogRules.Atom
import DialogRules.Elements

/-!
# Conditions

A condition is one atom or a sequence of terms; a term is an atom, a
connective or a group, which holds a condition again. There is no
precedence between the connectives: a level of a condition is a flat list
in the order of writing, and groups are the only nesting. Nothing asks
that connectives stand between operands, so every list of terms is a
sequence.

A level that holds one operand and nothing else is that operand
(`ofTerms`).
-/

namespace DialogRules

mutual

/-- What has to hold for a rule to act. -/
inductive Condition where
  | atom (atom : Atom)
  | sequence (terms : List Term)

/-- One entry of a level of a condition. -/
inductive Term where
  | atom (atom : Atom)
  | connective (connective : Connective)
  | group (inner : Condition)

end

/-! ## Equality is decidable -/

mutual

/-- Decides whether two conditions are equal. -/
def Condition.decEq : (c d : Condition) → Decidable (c = d)
  | .atom a, .atom b =>
    if h : a = b then isTrue (by rw [h]) else isFalse fun he => h (Condition.atom.inj he)
  | .sequence ts, .sequence us =>
    match Term.decEqList ts us with
    | isTrue h => isTrue (by rw [h])
    | isFalse h => isFalse fun he => h (Condition.sequence.inj he)
  | .atom _, .sequence _ => isFalse nofun
  | .sequence _, .atom _ => isFalse nofun

/-- Decides whether two terms are equal. -/
def Term.decEq : (t u : Term) → Decidable (t = u)
  | .atom a, .atom b =>
    if h : a = b then isTrue (by rw [h]) else isFalse fun he => h (Term.atom.inj he)
  | .connective c, .connective d =>
    if h : c = d then isTrue (by rw [h]) else isFalse fun he => h (Term.connective.inj he)
  | .group c, .group d =>
    match Condition.decEq c d with
    | isTrue h => isTrue (by rw [h])
    | isFalse h => isFalse fun he => h (Term.group.inj he)
  | .atom _, .connective _ => isFalse nofun
  | .atom _, .group _ => isFalse nofun
  | .connective _, .atom _ => isFalse nofun
  | .connective _, .group _ => isFalse nofun
  | .group _, .atom _ => isFalse nofun
  | .group _, .connective _ => isFalse nofun

/-- Decides whether two levels are equal, term by term. -/
def Term.decEqList : (ts us : List Term) → Decidable (ts = us)
  | [], [] => isTrue rfl
  | t :: ts, u :: us =>
    match Term.decEq t u, Term.decEqList ts us with
    | isTrue h, isTrue hs => isTrue (by rw [h, hs])
    | isFalse h, _ => isFalse fun he => h (List.cons.inj he).1
    | _, isFalse hs => isFalse fun he => hs (List.cons.inj he).2
  | [], _ :: _ => isFalse nofun
  | _ :: _, [] => isFalse nofun

end

instance : DecidableEq Condition := Condition.decEq

instance : DecidableEq Term := Term.decEq

/-! ## The atoms of a condition -/

mutual

/-- The atoms of a condition, groups included, in the order of
writing. -/
def Condition.atoms : Condition → List Atom
  | .atom a => [a]
  | .sequence terms => Term.atomsOfList terms

/-- The atoms of a term, in the order of writing. -/
def Term.atoms : Term → List Atom
  | .atom a => [a]
  | .connective _ => []
  | .group inner => inner.atoms

/-- The atoms of a level, in the order of writing. -/
def Term.atomsOfList : List Term → List Atom
  | [] => []
  | t :: ts => t.atoms ++ Term.atomsOfList ts

end

theorem Term.atomsOfList_eq_flatMap (ts : List Term) :
    Term.atomsOfList ts = ts.flatMap Term.atoms := by
  induction ts with
  | nil => rfl
  | cons t ts ih => rw [Term.atomsOfList, ih, List.flatMap_cons]

namespace Condition

/-- The condition that a level stands for. A level of one atom is the
atom and a level of one group is what the group holds; any other level is
a sequence, a lone connective too. -/
def ofTerms : List Term → Condition
  | [.atom a] => .atom a
  | [.group inner] => inner
  | terms => .sequence terms

/-- Whether the condition is the sequence of no terms. -/
def isEmpty : Condition → Bool
  | .sequence [] => true
  | _ => false

/-- The names of the elements that the condition asks about. -/
def elements (c : Condition) : Elements :=
  Elements.ofList (c.atoms.map Atom.subject)

/-- **Unwrapping a level loses no atom.** -/
theorem atoms_ofTerms (terms : List Term) : (ofTerms terms).atoms = terms.flatMap Term.atoms := by
  fun_cases ofTerms terms <;> simp [atoms, Term.atoms, Term.atomsOfList_eq_flatMap]

end Condition

end DialogRules
