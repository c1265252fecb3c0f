import DialogRules.Proofs.Condition.Atoms
import DialogRules.Proofs.Lexeme

/-!
# Normal conditions

A condition is normal when reading could have built it: its atoms hold
the texts of tokens and start with words, no level of it is a lone
operand, and its groups nest no deeper than the reader goes. This file
proves that reading builds nothing else (`normal_of_result`). The levels
under way carry the invariant: what is in them is unwrapped and leaves
room for the groups around it (`Levels.Tidy`).
-/

namespace DialogRules

/-- Whether the parts of an atom are texts of tokens, the first of them a
word. -/
structure Atom.IsSpelled (a : Atom) : Prop where
  subject : Text.isWord a.subject = true
  operator : Lexeme.IsTokenText a.operator
  predicate : Lexeme.IsTokenText a.predicate

instance (a : Atom) : Decidable a.IsSpelled :=
  decidable_of_iff (Text.isWord a.subject = true ∧ Lexeme.IsTokenText a.operator ∧
    Lexeme.IsTokenText a.predicate) ⟨fun h => ⟨h.1, h.2.1, h.2.2⟩, fun h => ⟨h.1, h.2, h.3⟩⟩

/-- Whether a level is one operand and nothing else. -/
def Term.isLone : List Term → Bool
  | [.atom _] | [.group _] => true
  | _ => false

mutual

/-- Whether no sequence of the condition is a lone operand. -/
def Condition.isUnwrapped : Condition → Bool
  | .atom _ => true
  | .sequence terms => !Term.isLone terms && Term.areUnwrapped terms

/-- Whether no sequence of the term is a lone operand. -/
def Term.isUnwrapped : Term → Bool
  | .atom _ | .connective _ => true
  | .group inner => inner.isUnwrapped

/-- Whether no sequence inside a level is a lone operand. -/
def Term.areUnwrapped : List Term → Bool
  | [] => true
  | t :: ts => t.isUnwrapped && Term.areUnwrapped ts

end

mutual

/-- How many groups of the condition stand inside each other. -/
def Condition.depth : Condition → Nat
  | .atom _ => 0
  | .sequence terms => Term.depthOfList terms

/-- How many groups of the term stand inside each other. -/
def Term.depth : Term → Nat
  | .atom _ | .connective _ => 0
  | .group inner => inner.depth + 1

/-- How many groups of a level stand inside each other. -/
def Term.depthOfList : List Term → Nat
  | [] => 0
  | t :: ts => max t.depth (Term.depthOfList ts)

end

/-- A condition that reading could have built. -/
structure Condition.Normal (c : Condition) : Prop where
  /-- Every atom holds the texts of tokens. -/
  spelled : ∀ a ∈ c.atoms, a.IsSpelled
  /-- No level is a lone operand. -/
  unwrapped : c.isUnwrapped = true
  /-- The groups nest no deeper than the reader goes. -/
  shallow : c.depth ≤ maxNesting

instance (c : Condition) : Decidable c.Normal :=
  decidable_of_iff ((∀ a ∈ c.atoms, a.IsSpelled) ∧ c.isUnwrapped = true ∧ c.depth ≤ maxNesting)
    ⟨fun h => ⟨h.1, h.2.1, h.2.2⟩, fun h => ⟨h.1, h.2, h.3⟩⟩

/-! ## Levels of a condition -/

namespace Term

theorem areUnwrapped_iff {ts : List Term} :
    areUnwrapped ts = true ↔ ∀ t ∈ ts, t.isUnwrapped = true := by
  induction ts with
  | nil => simp [areUnwrapped]
  | cons t ts ih => simp [areUnwrapped, ih]

theorem depthOfList_le_iff {ts : List Term} {n : Nat} :
    depthOfList ts ≤ n ↔ ∀ t ∈ ts, t.depth ≤ n := by
  induction ts with
  | nil => simp [depthOfList]
  | cons t ts ih => rw [depthOfList, Nat.max_le, ih, List.forall_mem_cons]

end Term

namespace Condition

/-- A level that is not a lone operand stays a sequence. -/
theorem ofTerms_of_not_isLone {ts : List Term} (h : Term.isLone ts = false) :
    ofTerms ts = .sequence ts := by
  fun_cases ofTerms ts <;> simp_all [Term.isLone]

/-- Unwrapping leaves no lone operand behind. -/
theorem isUnwrapped_ofTerms {ts : List Term} (h : ∀ t ∈ ts, t.isUnwrapped = true) :
    (ofTerms ts).isUnwrapped = true := by
  cases hl : Term.isLone ts with
  | false =>
    rw [ofTerms_of_not_isLone hl, isUnwrapped, hl, Term.areUnwrapped_iff.2 h]
    rfl
  | true =>
    fun_cases ofTerms ts with
    | case1 a => rfl
    | case2 inner => exact h _ List.mem_cons_self
    | case3 _ hatom hgroup =>
      unfold Term.isLone at hl
      split at hl <;> simp_all

/-- And makes nothing deeper. -/
theorem depth_ofTerms_le {ts : List Term} {n : Nat} (h : ∀ t ∈ ts, t.depth ≤ n) :
    (ofTerms ts).depth ≤ n := by
  fun_cases ofTerms ts with
  | case1 a => exact Nat.zero_le n
  | case2 inner =>
    have := h (.group inner) List.mem_cons_self
    simp only [Term.depth] at this
    omega
  | case3 => exact Term.depthOfList_le_iff.2 h

end Condition

/-! ## The invariant of the levels -/

namespace Levels

/-- Terms that fit into a level with `n` others around it. -/
def FitsAt (n : Nat) (t : Term) : Prop := t.isUnwrapped = true ∧ n + t.depth ≤ maxNesting

/-- Levels in which every term fits where it stands. -/
def TidyFrom (terms : List Term) : List (List Term) → Prop
  | [] => ∀ t ∈ terms, FitsAt 0 t
  | level :: outer => outer.length + 1 ≤ maxNesting ∧
      (∀ t ∈ terms, FitsAt (outer.length + 1) t) ∧ TidyFrom level outer

/-- Levels that are no more than the reader keeps, in which every term
fits where it stands. -/
def Tidy (l : Levels) : Prop := TidyFrom l.terms l.outer

theorem TidyFrom.cons {t : Term} {terms : List Term} {outer : List (List Term)}
    (h : TidyFrom terms outer) (ht : FitsAt outer.length t) : TidyFrom (t :: terms) outer := by
  cases outer with
  | nil => exact List.forall_mem_cons.2 ⟨ht, h⟩
  | cons level outer => exact ⟨h.1, List.forall_mem_cons.2 ⟨ht, h.2.1⟩, h.2.2⟩

theorem TidyFrom.length_le {terms : List Term} {outer : List (List Term)}
    (h : TidyFrom terms outer) : outer.length ≤ maxNesting := by
  cases outer with
  | nil => exact Nat.zero_le _
  | cons level outer => exact h.1

/-- **A level fits into the next one as a group.** -/
theorem TidyFrom.group {terms level : List Term} {outer : List (List Term)}
    (h : TidyFrom terms (level :: outer)) :
    TidyFrom (.group (Condition.ofTerms terms.reverse) :: level) outer := by
  obtain ⟨hlen, hterms, hlevel⟩ := h
  refine hlevel.cons ⟨?_, ?_⟩
  · rw [Term.isUnwrapped]
    exact Condition.isUnwrapped_ofTerms fun t ht => (hterms t (List.mem_reverse.1 ht)).1
  · have hdepth : (Condition.ofTerms terms.reverse).depth ≤ maxNesting - (outer.length + 1) := by
      refine Condition.depth_ofTerms_le fun t ht => ?_
      have := (hterms t (List.mem_reverse.1 ht)).2
      omega
    rw [Term.depth]
    omega

variable {l l' : Levels}

theorem tidy_initial : initial.Tidy := by
  intro t ht
  cases ht

/-- **Every step keeps the levels tidy.** -/
theorem Step.tidy {p : Piece} (h : Step l p l') (hl : l.Tidy) : l'.Tidy := by
  cases h with
  | openParen hlt => exact ⟨hlt, by simp, hl⟩
  | closeParen => exact TidyFrom.group hl
  | connective => exact TidyFrom.cons hl ⟨rfl, TidyFrom.length_le hl⟩
  | atom => exact TidyFrom.cons hl ⟨rfl, TidyFrom.length_le hl⟩
  | idle => exact hl

/-- So every run does, and closing tidy levels gives a condition with no
lone operand that is not too deep. -/
theorem Tidy.close (hl : l.Tidy) : l.close.isUnwrapped = true ∧ l.close.depth ≤ maxNesting := by
  obtain ⟨outer, terms⟩ := l
  rw [Levels.close]
  -- levels are closed from the innermost out, each into the next one as a group
  induction outer generalizing terms with
  | nil =>
    have hterms : ∀ t ∈ terms.reverse, FitsAt 0 t := fun t ht => hl t (List.mem_reverse.1 ht)
    refine ⟨Condition.isUnwrapped_ofTerms fun t ht => (hterms t ht).1, ?_⟩
    refine Condition.depth_ofTerms_le fun t ht => ?_
    have := (hterms t ht).2
    omega
  | cons level outer ih => exact ih _ (TidyFrom.group hl)

end Levels

/-! ## Reading builds normal conditions -/

/-- The pieces of the tokens of a text have atoms that are spelled. -/
theorem Piece.isSpelled_of_mem {ps : List Piece} (hps : ∀ p ∈ ps, p.IsProper)
    (htokens : ∀ t ∈ tokensOf ps, Lexeme.IsTokenText t.text) :
    ∀ a ∈ atomsOf ps, a.IsSpelled := by
  intro a ha
  have hmem := mem_atomsOf.1 ha
  have hpart : ∀ t ∈ tokens (.atom a), Lexeme.IsTokenText t.text := fun t ht =>
    htokens t (List.mem_flatMap.2 ⟨_, hmem, ht⟩)
  exact ⟨hps _ hmem, hpart ⟨a.operator⟩ (by simp [tokens]), hpart ⟨a.predicate⟩ (by simp [tokens])⟩

theorem Token.isTokenText_of_mem_ofString {s : String} {t : Token} (h : t ∈ Token.ofString s) :
    Lexeme.IsTokenText t.text := by
  obtain ⟨l, hl, ht⟩ := List.mem_filterMap.1 h
  cases l with
  | stray c => cases ht
  | token u =>
    cases ht
    exact Lexeme.isTokenText_of_mem hl

namespace Condition

/-- **What is read is normal.** -/
theorem normal_of_result {s : String} {c : Condition} (h : (read s).result = .ok c) :
    c.Normal := by
  have hatoms : c.atoms = (read s).atoms := atoms_of_result h
  obtain ⟨ps, l, rest, r, hps, hrun, hhalt, htokens, hread⟩ :=
    exists_run_ofTokens (Token.ofString s)
  rw [read, hread] at h hatoms
  simp only at h hatoms
  subst h
  have htidy : l.Tidy := hrun.preserves (fun _ hs hl => hs.tidy hl) Levels.tidy_initial
  refine ⟨?_, hhalt.eq_close ▸ htidy.close.1, hhalt.eq_close ▸ htidy.close.2⟩
  rw [hatoms]
  refine Piece.isSpelled_of_mem hps fun t ht => ?_
  exact Token.isTokenText_of_mem_ofString (htokens ▸ List.mem_append_left _ ht)

end Condition

end DialogRules
