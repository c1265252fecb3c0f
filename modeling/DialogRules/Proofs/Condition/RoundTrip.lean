import DialogRules.Proofs.Condition.Nesting
import DialogRules.Proofs.Condition.Pieces

/-!
# Writing and reading back

Reading the text of a normal condition gives the condition again and
leaves nothing unread (`read_render`). Since reading builds normal
conditions only, the conditions that survive being written and read back
are the normal ones, and no others
(`normal_of_read_and_read_render_iff`).
-/

namespace DialogRules

mutual

/-- The atoms of a condition are those of its pieces. -/
theorem Condition.atomsOf_pieces (c : Condition) : Piece.atomsOf c.pieces = c.atoms := by
  match c with
  | .atom a => rfl
  | .sequence ts =>
    rw [Condition.pieces, Condition.atoms]
    exact Term.atomsOf_piecesOfList ts

/-- The atoms of a term are those of its pieces. -/
theorem Term.atomsOf_pieces (t : Term) : Piece.atomsOf t.pieces = t.atoms := by
  match t with
  | .atom a => rfl
  | .connective c => rfl
  | .group inner =>
    have h := Condition.atomsOf_pieces inner
    simp [Term.pieces, Term.atoms, Piece.atom?, h]

/-- The atoms of a level are those of its pieces. -/
theorem Term.atomsOf_piecesOfList (ts : List Term) :
    Piece.atomsOf (Term.piecesOfList ts) = Term.atomsOfList ts := by
  match ts with
  | [] => rfl
  | t :: ts =>
    rw [Term.piecesOfList, Term.atomsOfList, Piece.atomsOf_append, Term.atomsOf_pieces t,
      Term.atomsOf_piecesOfList ts]

end

mutual

/-- Every piece of a condition is an atom, a connective or a parenthesis:
nothing in it was passed over. -/
theorem Condition.not_idle_of_mem_pieces (c : Condition) : ∀ t, .idle t ∉ c.pieces := by
  intro t
  match c with
  | .atom a => simp [Condition.pieces]
  | .sequence ts => exact Term.not_idle_of_mem_piecesOfList ts t

theorem Term.not_idle_of_mem_pieces (u : Term) : ∀ t, .idle t ∉ u.pieces := by
  intro t
  match u with
  | .atom a => simp [Term.pieces]
  | .connective c => simp [Term.pieces]
  | .group inner =>
    have h := Condition.not_idle_of_mem_pieces inner t
    simp [Term.pieces, h]

theorem Term.not_idle_of_mem_piecesOfList (ts : List Term) :
    ∀ t, .idle t ∉ Term.piecesOfList ts := by
  intro t
  match ts with
  | [] => simp [Term.piecesOfList]
  | u :: us =>
    have hu := Term.not_idle_of_mem_pieces u t
    have hus := Term.not_idle_of_mem_piecesOfList us t
    simp [Term.piecesOfList, hu, hus]

end

namespace Condition

/-- The pieces of a condition with spelled atoms are proper. -/
theorem isProper_of_mem_pieces {c : Condition} (h : ∀ a ∈ c.atoms, a.IsSpelled) :
    ∀ p ∈ c.pieces, p.IsProper := by
  intro p hp
  cases p with
  | openParen | closeParen | connective _ => trivial
  | atom a => exact (h a (c.atomsOf_pieces ▸ Piece.mem_atomsOf.2 hp)).subject
  | idle t => exact absurd hp (c.not_idle_of_mem_pieces t)

/-- If the atoms are well formed too, the pieces keep to the
vocabularies. -/
theorem isStrict_of_mem_pieces {c : Condition} (h : ∀ a ∈ c.atoms, a.IsSpelled)
    (hformed : ∀ a ∈ c.atoms, a.isWellFormed = true) : ∀ p ∈ c.pieces, p.IsStrict := by
  intro p hp
  cases p with
  | openParen | closeParen | connective _ => trivial
  | atom a =>
    have ha : a ∈ c.atoms := c.atomsOf_pieces ▸ Piece.mem_atomsOf.2 hp
    exact Piece.isStrict_atom.2 ⟨(h a ha).subject, hformed a ha⟩
  | idle t => exact absurd hp (c.not_idle_of_mem_pieces t)

/-- The parentheses of a normal condition nest. -/
theorem nested_pieces {c : Condition} (h : c.Normal) : Piece.Nested maxNesting c.pieces := by
  obtain ⟨terms, hrun, -⟩ := run_pieces c [] h.unwrapped (by simpa using h.shallow)
  exact Levels.exists_run_outermost_iff.1 ⟨_, hrun, rfl⟩

/-- **Reading inverts writing** on normal conditions, and leaves nothing
unread. -/
theorem read_render {c : Condition} (h : c.Normal) : read c.render = ⟨.ok c, c.atoms, []⟩ := by
  obtain ⟨terms, hrun, hterms⟩ := run_pieces c [] h.unwrapped (by simpa using h.shallow)
  have htokens : Token.ofString c.render = Piece.tokensOf c.pieces :=
    (spells_render c h.spelled).ofString_eq
  have hread := Levels.read_eq (isProper_of_mem_pieces h.spelled) hrun .done
  have hclose : Levels.close ⟨[], terms⟩ = c := hterms
  rw [List.append_nil, hclose, atomsOf_pieces] at hread
  rw [read, htokens]
  exact hread

/-- **The conditions that are written and read back are the normal ones.**
Whatever is read is normal; a condition is read back from its text exactly
if it is normal, and then every token of the text is read and the elements
that come up are those of the condition. -/
theorem normal_of_read_and_read_render_iff :
    (∀ (s : String) (c : Condition), (read s).result = .ok c → c.Normal) ∧
      ∀ c : Condition, ((read c.render).result = .ok c ↔ c.Normal) ∧
        (c.Normal → (read c.render).rest = [] ∧ (read c.render).elements = c.elements) := by
  refine ⟨fun s c => normal_of_result, fun c => ⟨⟨normal_of_result, fun h => ?_⟩, fun h => ?_⟩⟩
  · rw [read_render h]
  · have hread := read_render h
    have helements := @elements_of_result (Token.ofString c.render) c
    refine ⟨by rw [hread], helements ?_⟩
    rw [← read, hread]

/-- A group whose only atom holds a parenthesis and a semicolon is written
and read back. -/
theorem read_render_group_of_symbols :
    Normal (.sequence [.group (.atom ⟨"A", "(", ";"⟩), .connective .or, .group (.sequence [])]) ∧
      (read (render (.sequence
        [.group (.atom ⟨"A", "(", ";"⟩), .connective .or, .group (.sequence [])]))).rest = [] :=
  ⟨by decide, ((normal_of_read_and_read_render_iff.2 _).2 (by decide)).1⟩

end Condition

end DialogRules
