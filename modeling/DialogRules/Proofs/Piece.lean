import DialogRules.Condition.Reading
import DialogRules.Proofs.Token

/-!
# Pieces of a condition

A piece is what reading takes at a time: three tokens for an atom, one
for anything else. The tokens of a condition are the tokens of its pieces
one after another, and where the cuts lie depends on the tokens alone:
neither the levels under way nor the checks move them. So the reader, the
strict scan and the text of a condition are compared piece by piece.
-/

namespace DialogRules

/-- What is taken at a time from the tokens of a condition. -/
inductive Piece where
  | openParen
  | closeParen
  | connective (connective : Connective)
  | atom (atom : Atom)
  /-- A token that is passed over. -/
  | idle (token : Token)
deriving DecidableEq

namespace Piece

/-- The tokens of a piece. -/
def tokens : Piece → List Token
  | openParen => [Token.openParen]
  | closeParen => [Token.closeParen]
  | connective c => [⟨c.text⟩]
  | atom a => [⟨a.subject⟩, ⟨a.operator⟩, ⟨a.predicate⟩]
  | idle t => [t]

/-- The tokens of some pieces, in order. -/
def tokensOf (ps : List Piece) : List Token := ps.flatMap tokens

/-- The atom, if the piece is one. -/
def atom? : Piece → Option Atom
  | atom a => some a
  | _ => none

/-- The atoms among some pieces, in order. -/
def atomsOf (ps : List Piece) : List Atom := ps.filterMap atom?

/-- Whether a token can be passed over. -/
def IsIdle (t : Token) : Prop :=
  (∃ op, t.kind = .compare op) ∨ t.kind = .terminator ∨ t.kind = .other

/-- Whether a piece is what its first token makes it: an atom starts with
a word, and only what means nothing is passed over. -/
def IsProper : Piece → Prop
  | atom a => Text.isWord a.subject = true
  | idle t => IsIdle t
  | openParen | closeParen | connective _ => True

@[simp] theorem tokensOf_nil : tokensOf [] = [] := rfl

@[simp] theorem tokensOf_cons (p : Piece) (ps : List Piece) :
    tokensOf (p :: ps) = p.tokens ++ tokensOf ps := rfl

@[simp] theorem tokensOf_append (ps qs : List Piece) :
    tokensOf (ps ++ qs) = tokensOf ps ++ tokensOf qs :=
  List.flatMap_append

@[simp] theorem atomsOf_nil : atomsOf [] = [] := rfl

@[simp] theorem atomsOf_cons (p : Piece) (ps : List Piece) :
    atomsOf (p :: ps) = p.atom?.toList ++ atomsOf ps := by
  cases h : p.atom? <;> simp [atomsOf, h]

@[simp] theorem atomsOf_append (ps qs : List Piece) :
    atomsOf (ps ++ qs) = atomsOf ps ++ atomsOf qs :=
  List.filterMap_append

theorem mem_atomsOf {ps : List Piece} {a : Atom} : a ∈ atomsOf ps ↔ atom a ∈ ps := by
  simp only [atomsOf, List.mem_filterMap]
  constructor
  · rintro ⟨p, hp, ha⟩
    cases p with
    | atom b => cases ha; exact hp
    | openParen | closeParen | connective _ | idle _ => cases ha
  · exact fun h => ⟨_, h, rfl⟩

/-! ## The piece at the front of some tokens -/

theorem isWord_eq_false_of_isIdle {t : Token} (h : IsIdle t) : t.isWord = false := by
  refine Token.isWord_eq_false fun w hw => ?_
  rcases h with ⟨op, h⟩ | h | h <;> rw [hw] at h <;> cases h

/-- **There is always a next piece**, except at the end and at a word that
is cut short. -/
theorem exists_front (t : Token) (ts : List Token) :
    (∃ (p : Piece) (rest : List Token), p.IsProper ∧ t :: ts = p.tokens ++ rest) ∨
      (t.isWord = true ∧ ts.length < 2) := by
  cases hk : t.kind with
  | openParen => exact .inl ⟨openParen, ts, trivial, by rw [Token.eq_openParen_of_kind hk]; rfl⟩
  | closeParen => exact .inl ⟨closeParen, ts, trivial, by rw [Token.eq_closeParen_of_kind hk]; rfl⟩
  | connective c =>
    exact .inl ⟨connective c, ts, trivial, by rw [Token.eq_of_kind_connective hk]; rfl⟩
  | compare op => exact .inl ⟨idle t, ts, .inl ⟨op, hk⟩, rfl⟩
  | terminator => exact .inl ⟨idle t, ts, .inr (.inl hk), rfl⟩
  | other => exact .inl ⟨idle t, ts, .inr (.inr hk), rfl⟩
  | word w =>
    have hw : t.isWord = true := Token.exists_kind_eq_word_iff.1 ⟨w, hk⟩
    rcases ts with _ | ⟨o, _ | ⟨p, rest⟩⟩
    · exact .inr ⟨hw, by simp⟩
    · exact .inr ⟨hw, by simp⟩
    · exact .inl ⟨atom ⟨t.text, o.text, p.text⟩, rest, hw, rfl⟩

end Piece

end DialogRules
