import DialogRules.Advisory
import DialogRules.Condition.Basic
import DialogRules.Lexeme

/-!
# Reading a condition

A condition is read from its tokens in one pass from left to right. An
opening parenthesis suspends the level under way and starts a new one; a
closing one ends the level and hands it to the suspended level as a
group. A word takes itself and the next two tokens, whatever they are, as
an atom; a connective is a term by itself; any other token is passed
over. The end of the tokens ends every level that is still open, and a
closing parenthesis with no level to return to ends the reading, with the
tokens from it on left unread.

Reading fails in two places only: at a word with fewer than two tokens
behind it, and at an opening parenthesis with `maxNesting` levels
suspended. What stood before the failure is not lost: a `Reading` keeps
the atoms that were completed, and the elements and the advisories of a
reading are theirs.
-/

namespace DialogRules

/-- How many groups may stand inside each other. -/
def maxNesting : Nat := 64

namespace Atom

/-- The atom that three tokens make up, whatever they are. -/
def ofTokens (subject operator predicate : Token) : Atom :=
  ⟨subject.text, operator.text, predicate.text⟩

/-- The atom at the front of some tokens, and the tokens behind it. -/
def read : List Token → Except ParseError (Atom × List Token)
  | subject :: operator :: predicate :: rest =>
    .ok (ofTokens subject operator predicate, rest)
  | tokens => .error (.truncated (tokens.map Token.text))

end Atom

/-- What reading a condition leaves behind. -/
structure Reading where
  /-- The condition, or why it could not be read. -/
  result : Except ParseError Condition
  /-- The atoms that were completed, in order, also when the reading
  failed later. -/
  atoms : List Atom
  /-- The tokens that were not read. After a failure the first of them is
  the one it failed at. -/
  rest : List Token

namespace Reading

/-- The reading with an atom completed before everything else in it. -/
def after (a : Atom) (r : Reading) : Reading :=
  { r with atoms := a :: r.atoms }

/-- The subjects of the completed atoms, in order. -/
def subjects (r : Reading) : List String := r.atoms.map Atom.subject

/-- The names of the elements that the completed atoms ask about. -/
def elements (r : Reading) : Elements := Elements.ofList r.subjects

/-- The advisories about the completed atoms, in order. -/
def advisories (r : Reading) : List Advisory := r.atoms.flatMap Atom.advisories

end Reading

namespace Condition

/-- The condition that is left when the tokens end: the level under way
is closed, and so is every suspended one. Levels are given with their
newest term first and the innermost suspended level first. -/
def closeAll (terms : List Term) : List (List Term) → Condition
  | [] => ofTerms terms.reverse
  | level :: outer => closeAll (.group (ofTerms terms.reverse) :: level) outer

/-- Reads on from the middle of a condition, with the terms of the level
under way and the suspended levels around it. Levels are given with their
newest term first and the innermost suspended level first. -/
def readFrom (outer : List (List Term)) (terms : List Term) : List Token → Reading
  | [] => ⟨.ok (closeAll terms outer), [], []⟩
  | token :: rest =>
    match token.kind with
    | .openParen =>
      if outer.length < maxNesting then readFrom (terms :: outer) [] rest
      else ⟨.error (.tooDeep maxNesting), [], token :: rest⟩
    | .closeParen =>
      match outer with
      | [] => ⟨.ok (ofTerms terms.reverse), [], token :: rest⟩
      | level :: outer => readFrom outer (.group (ofTerms terms.reverse) :: level) rest
    | .connective c => readFrom outer (.connective c :: terms) rest
    | .word _ =>
      match rest with
      | operator :: predicate :: rest =>
        let a := Atom.ofTokens token operator predicate
        (readFrom outer (.atom a :: terms) rest).after a
      | [] => ⟨.error (.truncated [token.text]), [], [token]⟩
      | [operator] =>
        ⟨.error (.truncated [token.text, operator.text]), [], [token, operator]⟩
    | .compare _ | .terminator | .other => readFrom outer terms rest

/-- **A word is read as an atom**, and reading fails where the atom
does. -/
theorem readFrom_of_isWord {outer : List (List Term)} {terms : List Term} {token : Token}
    {rest : List Token} (h : token.isWord = true) :
    readFrom outer terms (token :: rest) =
      match Atom.read (token :: rest) with
      | .ok (a, rest) => (readFrom outer (.atom a :: terms) rest).after a
      | .error e => ⟨.error e, [], token :: rest⟩ := by
  obtain ⟨w, hw⟩ := Token.exists_kind_eq_word_iff.2 h
  rcases rest with _ | ⟨_, _ | _⟩ <;> cases outer <;> simp [readFrom, hw, Atom.read]

/-- Reads a condition from its tokens. -/
def ofTokens (tokens : List Token) : Reading := readFrom [] [] tokens

/-- Reads a condition from its text. -/
def read (s : String) : Reading := ofTokens (Token.ofString s)

end Condition

end DialogRules
