import DialogRules.Proofs.Condition.Levels

/-!
# Collecting along a run

Something can be collected from a condition term by term: its atoms, or
its atoms and its connectives. If a group gives what is in it, and a
level gives the same whether or not it is unwrapped (`Collects`), then it
does not matter when it is collected. What the finished condition gives
is what the pieces of the run gave one by one (`Collects.of_run`).
-/

namespace DialogRules

namespace Piece

/-- The term that a piece is by itself, if it is one. -/
def term? : Piece → Option Term
  | connective c => some (.connective c)
  | atom a => some (.atom a)
  | openParen | closeParen | idle _ => none

/-- The terms among some pieces, in order. -/
def termsOf (ps : List Piece) : List Term := ps.filterMap term?

@[simp] theorem termsOf_nil : termsOf [] = [] := rfl

@[simp] theorem termsOf_cons (p : Piece) (ps : List Piece) :
    termsOf (p :: ps) = p.term?.toList ++ termsOf ps := by
  cases h : p.term? <;> simp [termsOf, h]

end Piece

variable {α : Type} {f : Term → List α} {g : Condition → List α}

/-- Whether `g` collects from a condition what `f` collects from its
terms. -/
structure Collects (f : Term → List α) (g : Condition → List α) : Prop where
  /-- A level gives what its terms give, also if it is unwrapped. -/
  ofTerms : ∀ ts, g (Condition.ofTerms ts) = ts.flatMap f
  /-- A group gives what is in it. -/
  group : ∀ c, f (.group c) = g c

namespace Levels

variable {l l' : Levels}

/-- What the terms under way give, in the order of writing: the outermost
level stands first. -/
def collect (f : Term → List α) (l : Levels) : List α :=
  (l.terms :: l.outer).reverse.flatMap fun level => level.reverse.flatMap f

theorem collect_push (f : Term → List α) (l : Levels) (t : Term) :
    (l.push t).collect f = l.collect f ++ f t := by
  simp [collect, push]

end Levels

namespace Collects

open Levels (Run Step)

variable {l l' : Levels}

/-- Closing the level under way and handing it on changes nothing. -/
theorem collect_group (h : Collects f g) (terms level : List Term) (outer : List (List Term)) :
    Levels.collect f ⟨outer, .group (Condition.ofTerms terms.reverse) :: level⟩ =
      Levels.collect f ⟨level :: outer, terms⟩ := by
  simp [Levels.collect, h.group, h.ofTerms]

/-- Nor does closing every level. -/
theorem close (h : Collects f g) (l : Levels) : g l.close = l.collect f := by
  obtain ⟨outer, terms⟩ := l
  rw [Levels.close]
  -- one suspended level less each time, and the same under way
  induction outer generalizing terms with
  | nil => simp [Condition.closeAll, h.ofTerms, Levels.collect]
  | cons level outer ih => rw [Condition.closeAll, ih, h.collect_group]

/-- A step adds what its piece gives as a term. -/
theorem step (h : Collects f g) {p : Piece} (hs : Step l p l') :
    l'.collect f = l.collect f ++ p.term?.toList.flatMap f := by
  cases hs with
  | openParen => simp [Levels.collect, Piece.term?]
  | closeParen => simp [h.collect_group, Piece.term?]
  | connective => simp [Levels.collect_push, Piece.term?]
  | atom => simp [Levels.collect_push, Piece.term?]
  | idle => simp [Piece.term?]

/-- **A run adds what its pieces give**, in order. -/
theorem run (h : Collects f g) {ps : List Piece} (hr : Run l ps l') :
    l'.collect f = l.collect f ++ (Piece.termsOf ps).flatMap f := by
  induction hr with
  | nil => simp
  | cons hs _ ih =>
    rw [ih, h.step hs, Piece.termsOf_cons, List.flatMap_append, List.append_assoc]

/-- **The finished condition gives what its pieces gave.** -/
theorem of_run (h : Collects f g) {ps : List Piece} (hr : Run Levels.initial ps l) :
    g l.close = (Piece.termsOf ps).flatMap f := by
  rw [h.close, h.run hr]
  rfl

end Collects

end DialogRules
