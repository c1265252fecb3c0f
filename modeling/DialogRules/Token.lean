import DialogRules.Vocabulary
import DialogRules.Text.Word

/-!
# Tokens

A token is a text that was cut out of a condition. What it stands for is
read off the text alone, never off its place: the reserved word and the
numerals are words like any other, and a word is what an atom can start
with (`exists_kind_eq_word_iff`).
-/

namespace DialogRules

/-- A piece of a condition that stands for itself. -/
structure Token where
  /-- The text of the token. -/
  text : String
deriving DecidableEq

namespace Token

/-- The words told apart: the reserved word, the numerals and the
rest. -/
inductive Word where
  | reserved
  | number
  | identifier
deriving DecidableEq

/-- What a token stands for. -/
inductive Kind where
  | word (word : Word)
  | compare (op : CompareOp)
  | connective (connective : Connective)
  | openParen
  | closeParen
  | terminator
  | other
deriving DecidableEq

/-- Whether the token is a word. -/
def isWord (t : Token) : Bool := Text.isWord t.text

/-- Which of the words a word is. -/
def word (t : Token) : Word :=
  if t.text = ifWord then .reserved
  else if Text.isNumeral t.text then .number
  else .identifier

/-- What the token stands for. -/
def kind (t : Token) : Kind :=
  if t.text = "(" then .openParen
  else if t.text = ")" then .closeParen
  else if t.text = ";" then .terminator
  else
    match Vocabulary.ofText? t.text with
    | some op => .compare op
    | none =>
      match Vocabulary.ofText? t.text with
      | some connective => .connective connective
      | none => if t.isWord then .word t.word else .other

/-- **Words are told by their characters**: no symbol is a word. -/
theorem exists_kind_eq_word_iff {t : Token} : (∃ w, t.kind = .word w) ↔ t.isWord = true := by
  constructor
  · rintro ⟨w, h⟩
    grind [kind]
  · intro h
    have hne (s : String) (hs : Text.isWord s = false) : t.text ≠ s := fun he => by
      rw [isWord, he, hs] at h
      cases h
    have hop : (Vocabulary.ofText? t.text : Option CompareOp) = none := by
      refine Option.eq_none_iff_forall_ne_some.2 fun op hop => ?_
      refine hne op.text (by cases op <;> decide) ?_
      exact (Vocabulary.ofText?_eq_some_iff.1 hop).symm
    have hconn : (Vocabulary.ofText? t.text : Option Connective) = none := by
      refine Option.eq_none_iff_forall_ne_some.2 fun c hc => ?_
      refine hne c.text (by cases c <;> decide) ?_
      exact (Vocabulary.ofText?_eq_some_iff.1 hc).symm
    refine ⟨t.word, ?_⟩
    simp [kind, hne "(" (by decide), hne ")" (by decide), hne ";" (by decide), hop, hconn, h]

end Token

end DialogRules
