import DialogRules.Proofs.Condition.Collected

/-!
# The atoms of what was read

Reading keeps a list of completed atoms beside the condition it builds.
The two agree: the atoms of the condition, taken depth first once it is
finished, are the completed ones in the order of completion
(`atoms_of_result`). So the elements and the advisories of a reading that
succeeded are those of its condition.
-/

namespace DialogRules

/-- Nothing is advised exactly if every completed atom is well formed. -/
theorem Reading.advisories_eq_nil_iff {r : Reading} :
    r.advisories = [] ↔ ∀ a ∈ r.atoms, a.isWellFormed = true := by
  rw [advisories, List.flatMap_eq_nil_iff]
  exact forall₂_congr fun _ _ => Atom.advisories_eq_nil_iff

/-- The atoms among some pieces are those of their terms. -/
theorem Piece.flatMap_atoms_termsOf (ps : List Piece) :
    (termsOf ps).flatMap Term.atoms = atomsOf ps := by
  induction ps with
  | nil => rfl
  | cons p ps ih =>
    rw [termsOf_cons, List.flatMap_append, ih, atomsOf_cons]
    cases p <;> rfl

namespace Levels

variable {l : Levels}

/-- Atoms are collected through groups and unwrapped levels alike. -/
theorem collects_atoms : Collects Term.atoms Condition.atoms :=
  ⟨Condition.atoms_ofTerms, fun _ => rfl⟩

/-- **What a run leaves behind has the atoms of its pieces**, in order. -/
theorem Run.atoms_close {ps : List Piece} (h : Run initial ps l) :
    l.close.atoms = Piece.atomsOf ps := by
  rw [collects_atoms.of_run h, Piece.flatMap_atoms_termsOf]

/-- A halt without a failure closes every level. -/
theorem Halt.eq_close {ts : List Token} {c : Condition} (h : Halt l ts (.ok c)) : c = l.close := by
  cases h with
  | done => rfl
  | stray => rfl

end Levels

namespace Condition

/-- **The completed atoms are the atoms of the condition.** -/
theorem atoms_of_result {ts : List Token} {c : Condition} (h : (ofTokens ts).result = .ok c) :
    c.atoms = (ofTokens ts).atoms := by
  obtain ⟨ps, l, rest, r, -, hrun, hhalt, -, hread⟩ := exists_run_ofTokens ts
  rw [hread] at h ⊢
  simp only at h ⊢
  subst h
  rw [hhalt.eq_close, hrun.atoms_close]

/-- So a reading that succeeded names the elements of its condition. -/
theorem elements_of_result {ts : List Token} {c : Condition} (h : (ofTokens ts).result = .ok c) :
    (ofTokens ts).elements = c.elements := by
  rw [Reading.elements, Reading.subjects, elements, atoms_of_result h]

end Condition

end DialogRules
