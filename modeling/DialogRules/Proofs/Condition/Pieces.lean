import DialogRules.Condition.Render
import DialogRules.Proofs.Condition.Normal

/-!
# The pieces of a condition

A finished condition has pieces of its own: its atoms and connectives in
the order of writing, with a pair of parentheses around each group. Its
text spells their tokens (`spells_render`), whatever the atoms hold, as
long as they are spelled. A run over them rebuilds the condition
(`run_pieces`), as long as nothing in it is unwrapped or too deep.
-/

namespace DialogRules

/-! ## Texts that spell tokens -/

namespace Lexeme

/-- Whether a text is cut into the given tokens, whatever follows it, if
no word goes on behind it. -/
def Spells (s : String) (ts : List Token) : Prop :=
  ∀ cs : List Char, (∀ c ∈ cs.head?, Text.isWordChar c = false) →
    ofChars (s.toList ++ cs) = ts.map .token ++ ofChars cs

theorem spells_empty : Spells "" [] := fun _ _ => rfl

/-- The text of a token spells it. -/
theorem spells_tokenText {s : String} (h : IsTokenText s) : Spells s [⟨s⟩] := by
  intro cs hcs
  rcases h with hs | hs
  · exact ofChars_symbol_append hs cs
  · exact ofChars_word_append hs hcs

/-- **A space between two texts** spells nothing and keeps them apart. -/
theorem Spells.space {s s' : String} {ts ts' : List Token} (h : Spells s ts)
    (h' : Spells s' ts') : Spells (s ++ " " ++ s') (ts ++ ts') := by
  intro cs hcs
  have hspace : (s ++ " " ++ s').toList ++ cs = s.toList ++ ' ' :: (s'.toList ++ cs) := by
    simp
  have hnot : ∀ c ∈ (' ' :: (s'.toList ++ cs)).head?, Text.isWordChar c = false := by
    intro c hc
    cases hc
    decide
  rw [hspace, h _ hnot, ofChars_of_isBlank (by decide), h' cs hcs, List.map_append,
    List.append_assoc]

/-- Parentheses around a text are tokens of their own. -/
theorem Spells.parens {s : String} {ts : List Token} (h : Spells s ts) :
    Spells ("(" ++ s ++ ")") (Token.openParen :: (ts ++ [Token.closeParen])) := by
  intro cs _
  have hopen : ("(" ++ s ++ ")").toList ++ cs =
      "(".toList ++ (s.toList ++ (")".toList ++ cs)) := by
    simp
  have hnot : ∀ c ∈ (")".toList ++ cs).head?, Text.isWordChar c = false := by
    intro c hc
    cases hc
    decide
  rw [hopen, ofChars_symbol_append (by decide), h _ hnot, ofChars_symbol_append (by decide)]
  simp [Token.openParen, Token.closeParen]

/-- A text that spells tokens has them and no stray character. -/
theorem Spells.lexemes_eq {s : String} {ts : List Token} (h : Spells s ts) :
    ofString s = ts.map .token := by
  have hchars := h [] (by simp)
  rw [List.append_nil] at hchars
  rw [ofString, hchars, ofChars, List.append_nil]

theorem Spells.ofString_eq {s : String} {ts : List Token} (h : Spells s ts) :
    Token.ofString s = ts := by
  rw [Token.ofString, h.lexemes_eq, List.filterMap_map]
  exact List.filterMap_some

end Lexeme

open Lexeme (Spells)

/-! ## Pieces and their text -/

mutual

/-- The pieces of a condition, in the order of writing. -/
def Condition.pieces : Condition → List Piece
  | .atom a => [.atom a]
  | .sequence terms => Term.piecesOfList terms

/-- The pieces of a term: a group has its parentheses around it. -/
def Term.pieces : Term → List Piece
  | .atom a => [.atom a]
  | .connective c => [.connective c]
  | .group inner => .openParen :: (inner.pieces ++ [.closeParen])

/-- The pieces of a level, in the order of writing. -/
def Term.piecesOfList : List Term → List Piece
  | [] => []
  | t :: ts => t.pieces ++ Term.piecesOfList ts

end

theorem Atom.IsSpelled.spells {a : Atom} (h : a.IsSpelled) :
    Spells a.render (Piece.tokens (.atom a)) :=
  ((Lexeme.spells_tokenText (.inr h.subject)).space (Lexeme.spells_tokenText h.operator)).space
    (Lexeme.spells_tokenText h.predicate)

theorem Connective.spells_text (c : Connective) :
    Spells c.text (Piece.tokens (.connective c)) :=
  Lexeme.spells_tokenText (.inl (by cases c <;> decide))

mutual

/-- **The text of a condition spells its pieces.** -/
theorem Condition.spells_render (c : Condition) (h : ∀ a ∈ c.atoms, a.IsSpelled) :
    Spells c.render (Piece.tokensOf c.pieces) := by
  match c with
  | .atom a =>
    have ha := h a (by simp [Condition.atoms])
    simpa [Condition.render, Condition.pieces, Piece.tokensOf] using ha.spells
  | .sequence ts =>
    rw [Condition.render, Condition.pieces]
    exact Term.spells_renderList ts h

/-- The text of a term spells its pieces. -/
theorem Term.spells_render (t : Term) (h : ∀ a ∈ t.atoms, a.IsSpelled) :
    Spells t.render (Piece.tokensOf t.pieces) := by
  match t with
  | .atom a =>
    have ha := h a (by simp [Term.atoms])
    simpa [Term.render, Term.pieces, Piece.tokensOf] using ha.spells
  | .connective c =>
    simpa [Term.render, Term.pieces, Piece.tokensOf] using c.spells_text
  | .group inner =>
    have hinner := (Condition.spells_render inner h).parens
    simpa [Term.render, Term.pieces, Piece.tokensOf, Piece.tokens] using hinner

/-- The texts of the terms of a level spell its pieces, with a space
between each two. -/
theorem Term.spells_renderList (ts : List Term)
    (h : ∀ a ∈ Term.atomsOfList ts, a.IsSpelled) :
    Spells (" ".intercalate (Term.renderList ts)) (Piece.tokensOf (Term.piecesOfList ts)) := by
  match ts with
  | [] => exact Lexeme.spells_empty
  | t :: ts =>
    have ht : Spells t.render (Piece.tokensOf t.pieces) :=
      Term.spells_render t fun a ha => h a (List.mem_append_left _ ha)
    have hts := Term.spells_renderList ts fun a ha => h a (List.mem_append_right _ ha)
    rw [Term.renderList, Term.piecesOfList, Piece.tokensOf_append]
    -- a space is written only if another term follows
    match ts with
    | [] => simpa [Term.renderList, Term.piecesOfList] using ht
    | u :: us =>
      have hne : Term.renderList (u :: us) ≠ [] := by simp [Term.renderList]
      rw [String.intercalate_cons_of_ne_nil hne]
      exact ht.space hts

end

/-! ## Rebuilding a condition from its pieces -/

open Levels (Run Step)

mutual

/-- **A run over its pieces rebuilds a condition** as the level under
way, if nothing in it is a lone operand or too deep. -/
theorem Condition.run_pieces (c : Condition) (outer : List (List Term))
    (hu : c.isUnwrapped = true) (hd : outer.length + c.depth ≤ maxNesting) :
    ∃ terms, Run ⟨outer, []⟩ c.pieces ⟨outer, terms⟩ ∧ Condition.ofTerms terms.reverse = c := by
  match c with
  | .atom a => exact ⟨[.atom a], .single .atom, rfl⟩
  | .sequence ts =>
    simp only [Condition.isUnwrapped, Bool.and_eq_true, Bool.not_eq_true'] at hu
    refine ⟨ts.reverse, ?_, ?_⟩
    · simpa [Condition.pieces] using Term.run_piecesOfList ts outer [] hu.2 hd
    · rw [List.reverse_reverse, Condition.ofTerms_of_not_isLone hu.1]

/-- A run over the pieces of a term adds the term. -/
theorem Term.run_pieces (t : Term) (outer : List (List Term)) (terms : List Term)
    (hu : t.isUnwrapped = true) (hd : outer.length + t.depth ≤ maxNesting) :
    Run ⟨outer, terms⟩ t.pieces ⟨outer, t :: terms⟩ := by
  match t with
  | .atom a => exact .single .atom
  | .connective c => exact .single .connective
  | .group inner =>
    simp only [Term.depth] at hd
    -- the group is a level of its own, which starts empty
    have hlt : outer.length < maxNesting := by omega
    obtain ⟨terms', hrun, hinner⟩ := Condition.run_pieces inner (terms :: outer) hu
      (by rw [List.length_cons]; omega)
    have hclose : Run ⟨terms :: outer, terms'⟩ [.closeParen] ⟨outer, .group inner :: terms⟩ :=
      hinner ▸ .single .closeParen
    exact .cons (.openParen hlt) (hrun.append hclose)

/-- A run over the pieces of a level adds its terms, in order. -/
theorem Term.run_piecesOfList (ts : List Term) (outer : List (List Term)) (terms : List Term)
    (hu : Term.areUnwrapped ts = true) (hd : outer.length + Term.depthOfList ts ≤ maxNesting) :
    Run ⟨outer, terms⟩ (Term.piecesOfList ts) ⟨outer, ts.reverse ++ terms⟩ := by
  match ts with
  | [] => exact .nil
  | t :: ts =>
    simp only [Term.areUnwrapped, Bool.and_eq_true] at hu
    simp only [Term.depthOfList] at hd
    have ht := Term.run_pieces t outer terms hu.1 (by omega)
    have hts := Term.run_piecesOfList ts outer (t :: terms) hu.2 (by omega)
    rw [Term.piecesOfList, List.reverse_cons, List.append_assoc, List.singleton_append]
    exact ht.append hts

end

end DialogRules
