import DialogRules.Proofs.Condition.Levels
import DialogRules.Proofs.Text.Balance

/-!
# Nesting

How many levels are suspended is the number of opening pieces less that
of closing ones, so the pieces over which there is a run are those that
close nothing unopened and nest no deeper than the reader goes
(`Levels.exists_run_iff`).

The characters of a condition may tell another number: a parenthesis may
stand inside an atom, where the reader does not count it. Pieces that
keep to the vocabularies (`Piece.IsStrict`) hold none, and over them the
two numbers are the same (`Levels.Run.depthAfter?_eq`).
-/

namespace DialogRules

namespace Atom

/-- **The well-formed atoms**, said without reading them. -/
theorem isWellFormed_iff {a : Atom} :
    a.isWellFormed = true ↔ (∃ op : CompareOp, a.operator = op.text) ∧
      ((∃ p : Property, a.predicate = p.text) ∨ Text.isNumeral a.predicate = true) := by
  have hop : a.compareOp?.isSome = true ↔ ∃ op : CompareOp, a.operator = op.text := by
    simp only [compareOp?, Option.isSome_iff_exists, Vocabulary.ofText?_eq_some_iff]
    exact exists_congr fun op => eq_comm
  have hpred : a.predicate?.isSome = true ↔
      (∃ p : Property, a.predicate = p.text) ∨ Text.isNumeral a.predicate = true := by
    have hprop : (∃ p : Property, a.predicate = p.text) ↔
        (Vocabulary.ofText? a.predicate : Option Property).isSome = true := by
      simp only [Option.isSome_iff_exists, Vocabulary.ofText?_eq_some_iff]
      exact exists_congr fun p => eq_comm
    rw [hprop, predicate?, Predicate.ofText?]
    cases (Vocabulary.ofText? a.predicate : Option Property) with
    | some p => simp
    | none => by_cases hnum : Text.isNumeral a.predicate = true <;> simp [hnum]
  rw [isWellFormed, Bool.and_eq_true, hop, hpred]

/-- What a well-formed atom compares with is written as a word. -/
theorem isWord_predicate_of_isWellFormed {a : Atom} (h : a.isWellFormed = true) :
    Text.isWord a.predicate = true := by
  rcases (isWellFormed_iff.1 h).2 with ⟨p, hp⟩ | hnum
  · rw [hp]
    cases p <;> decide
  · exact Text.isWord_of_isNumeral hnum

theorem hasNoParens_of_isWellFormed {a : Atom} (h : a.isWellFormed = true) :
    Text.HasNoParens a.operator.toList ∧ Text.HasNoParens a.predicate.toList := by
  obtain ⟨op, hop⟩ := (isWellFormed_iff.1 h).1
  refine ⟨?_, Text.hasNoParens_of_isWord (isWord_predicate_of_isWellFormed h)⟩
  rw [hop]
  cases op <;> decide

end Atom

namespace Piece

/-- Whether a piece keeps to the vocabularies: an atom is a word, a
comparison and a property or a number, and only a comparison is passed
over. -/
def IsStrict : Piece → Prop
  | atom a => Text.isWord a.subject = true ∧ (∃ op : CompareOp, a.operator = op.text) ∧
      ((∃ p : Property, a.predicate = p.text) ∨ Text.isNumeral a.predicate = true)
  | idle t => ∃ op : CompareOp, t.text = op.text
  | openParen | closeParen | connective _ => True

theorem isStrict_atom {a : Atom} :
    IsStrict (atom a) ↔ Text.isWord a.subject = true ∧ a.isWellFormed = true := by
  rw [Atom.isWellFormed_iff]
  rfl

theorem isStrict_idle {t : Token} : IsStrict (idle t) ↔ ∃ op, t.kind = .compare op := by
  constructor
  · rintro ⟨op, hop⟩
    obtain ⟨text⟩ := t
    simp only at hop
    exact ⟨op, hop ▸ Token.kind_compare op⟩
  · rintro ⟨op, hop⟩
    exact ⟨op, congrArg Token.text (Token.eq_of_kind_compare hop)⟩

/-- A piece that keeps to the vocabularies is what its first token makes
it. -/
theorem IsStrict.isProper {p : Piece} (h : p.IsStrict) : p.IsProper := by
  cases p with
  | atom a => exact h.1
  | idle t => exact .inl (isStrict_idle.1 h)
  | openParen | closeParen | connective _ => trivial

/-- The characters of some tokens, one after another. -/
def chars (ts : List Token) : List Char := ts.flatMap fun t => t.text.toList

theorem chars_append (ts us : List Token) : chars (ts ++ us) = chars ts ++ chars us :=
  List.flatMap_append

/-- The parentheses of some pieces are closed in order, and nest no deeper
than `limit`. -/
structure Nested (limit : Nat) (ps : List Piece) : Prop where
  /-- None is left open. -/
  closed : ps.count closeParen = ps.count openParen
  /-- None closes before it opens. -/
  opened : ∀ qs, qs <+: ps → qs.count closeParen ≤ qs.count openParen
  /-- Never more than `limit` are open. -/
  limited : ∀ qs, qs <+: ps → qs.count openParen ≤ qs.count closeParen + limit

end Piece

namespace Levels

variable {l l' : Levels}

/-- A step changes the number of suspended levels by its parenthesis. -/
theorem Step.length_outer {p : Piece} (h : Step l p l') :
    l'.outer.length + [p].count .closeParen = l.outer.length + [p].count .openParen := by
  cases h <;> simp [push]

/-- **The suspended levels are the groups that are open.** -/
theorem Run.length_outer {ps : List Piece} (h : Run l ps l') :
    l'.outer.length + ps.count .closeParen = l.outer.length + ps.count .openParen := by
  induction h with
  | nil => rfl
  | @cons l m l'' p ps step _ ih =>
    have hstep := step.length_outer
    have hcons : ∀ q, (p :: ps).count q = [p].count q + ps.count q := by
      intro q
      rw [← List.count_append, List.singleton_append]
    rw [hcons, hcons]
    omega

/-- At the start none is. -/
theorem Run.length_outer_initial {ps : List Piece} (h : Run initial ps l) :
    l.outer.length + ps.count .closeParen = ps.count .openParen := by
  have hcount := h.length_outer
  rw [show initial.outer.length = 0 from rfl] at hcount
  omega

/-- The reader never suspends more levels than it may. -/
theorem Step.length_outer_le {p : Piece} (h : Step l p l') (hl : l.outer.length ≤ maxNesting) :
    l'.outer.length ≤ maxNesting := by
  cases h with
  | openParen hlt => exact hlt
  | closeParen =>
    rw [List.length_cons] at hl
    exact Nat.le_of_succ_le hl
  | connective => exact hl
  | atom => exact hl
  | idle => exact hl

theorem Run.split {ps qs : List Piece} (h : Run l (ps ++ qs) l') :
    ∃ m, Run l ps m ∧ Run m qs l' := by
  induction ps generalizing l with
  | nil => exact ⟨l, .nil, h⟩
  | cons p ps ih =>
    cases h with
    | cons step run =>
      obtain ⟨m, hps, hqs⟩ := ih run
      exact ⟨m, .cons step hps, hqs⟩

/-- There is a step at every piece but an opening one too many and a
closing one with nothing to close. -/
theorem exists_step {p : Piece} (hopen : p = .openParen → l.outer.length < maxNesting)
    (hclose : p = .closeParen → 0 < l.outer.length) : ∃ l', Step l p l' := by
  cases p with
  | openParen => exact ⟨_, .openParen (hopen rfl)⟩
  | closeParen =>
    obtain ⟨_ | ⟨level, outer⟩, terms⟩ := l
    · exact absurd (hclose rfl) (Nat.lt_irrefl 0)
    · exact ⟨_, .closeParen⟩
  | connective c => exact ⟨_, .connective⟩
  | atom a => exact ⟨_, .atom⟩
  | idle t => exact ⟨_, .idle⟩

/-- **Where there is a run.** The reader gets through some pieces exactly
if they close nothing unopened and never nest too deep. -/
theorem exists_run_iff {ps : List Piece} :
    (∃ l, Run initial ps l) ↔ ∀ qs, qs <+: ps →
      qs.count .closeParen ≤ qs.count .openParen ∧
        qs.count .openParen ≤ qs.count .closeParen + maxNesting := by
  constructor
  · rintro ⟨l, hrun⟩ qs ⟨rest, rfl⟩
    obtain ⟨m, hqs, -⟩ := hrun.split
    have hcount := hqs.length_outer_initial
    have hle : m.outer.length ≤ maxNesting :=
      hqs.preserves (fun _ hs hl => hs.length_outer_le hl) (Nat.zero_le _)
    omega
  · intro h
    -- the last piece is the one to be taken, so the induction is from the right
    induction hn : ps.length generalizing ps with
    | zero =>
      rw [List.eq_nil_of_length_eq_zero hn]
      exact ⟨initial, .nil⟩
    | succ n ih =>
      have hne : ps ≠ [] := by
        rintro rfl
        cases hn
      obtain ⟨qs, p, rfl⟩ : ∃ qs p, ps = qs ++ [p] :=
        ⟨ps.dropLast, ps.getLast hne, (List.dropLast_concat_getLast hne).symm⟩
      obtain ⟨l, hrun⟩ := ih (fun rs hrs => h rs (hrs.trans (List.prefix_append qs [p])))
        (by simpa using hn)
      have hcount := hrun.length_outer_initial
      have hlast := h _ (List.prefix_refl _)
      rw [List.count_append, List.count_append] at hlast
      obtain ⟨l', hstep⟩ : ∃ l', Step l p l' := by
        refine exists_step ?_ ?_
        · rintro rfl
          have hone : [Piece.openParen].count .openParen = 1 := rfl
          have hnone : [Piece.openParen].count .closeParen = 0 := rfl
          omega
        · rintro rfl
          have hone : [Piece.closeParen].count .closeParen = 1 := rfl
          have hnone : [Piece.closeParen].count .openParen = 0 := rfl
          omega
      exact ⟨l', hrun.append (.single hstep)⟩

/-- So there is a run that comes back to the outermost level exactly over
nested pieces. -/
theorem exists_run_outermost_iff {ps : List Piece} :
    (∃ l, Run initial ps l ∧ l.outer = []) ↔ Piece.Nested maxNesting ps := by
  constructor
  · rintro ⟨l, hrun, hout⟩
    have hruns := exists_run_iff.1 ⟨l, hrun⟩
    have hcount := hrun.length_outer_initial
    rw [hout, List.length_nil] at hcount
    refine ⟨?_, fun qs hqs => (hruns qs hqs).1, fun qs hqs => (hruns qs hqs).2⟩
    omega
  · intro h
    obtain ⟨l, hrun⟩ := exists_run_iff.2 fun qs hqs => ⟨h.opened qs hqs, h.limited qs hqs⟩
    have hcount := hrun.length_outer_initial
    have hclosed := h.closed
    exact ⟨l, hrun, List.eq_nil_of_length_eq_zero (by omega)⟩

/-! ## The same count from the characters -/

/-- A strict piece moves the number of open parentheses as its step moves
the number of suspended levels. -/
theorem Step.depthAfter?_eq {p : Piece} (h : Step l p l') (hp : p.IsStrict) :
    Text.depthAfter? l.outer.length (Piece.chars p.tokens) = some l'.outer.length := by
  cases h with
  | openParen => rfl
  | closeParen => rfl
  | @connective l c =>
    refine Text.depthAfter?_of_hasNoParens ?_ _
    cases c <;> decide
  | @atom l a =>
    obtain ⟨hsubject, hformed⟩ := Piece.isStrict_atom.1 hp
    obtain ⟨hoperator, hpredicate⟩ := Atom.hasNoParens_of_isWellFormed hformed
    refine Text.depthAfter?_of_hasNoParens ?_ _
    intro c hc
    simp only [Piece.chars, Piece.tokens, List.flatMap_cons, List.flatMap_nil, List.append_nil,
      List.mem_append] at hc
    rcases hc with hc | hc | hc
    · exact Text.hasNoParens_of_isWord hsubject c hc
    · exact hoperator c hc
    · exact hpredicate c hc
  | @idle l t =>
    obtain ⟨op, hop⟩ := hp
    refine Text.depthAfter?_of_hasNoParens ?_ _
    simp only [Piece.chars, Piece.tokens, List.flatMap_cons, List.flatMap_nil, List.append_nil, hop]
    cases op <;> decide

/-- **Over strict pieces the two counts agree.** -/
theorem Run.depthAfter?_eq {ps : List Piece} (h : Run l ps l') (hps : ∀ p ∈ ps, p.IsStrict) :
    Text.depthAfter? l.outer.length (Piece.chars (Piece.tokensOf ps)) = some l'.outer.length := by
  induction h with
  | nil => rfl
  | cons step _ ih =>
    obtain ⟨hp, hps⟩ := List.forall_mem_cons.1 hps
    rw [Piece.tokensOf_cons, Piece.chars_append, Text.depthAfter?_append, step.depthAfter?_eq hp,
      Option.bind_some, ih hps]

end Levels

end DialogRules
