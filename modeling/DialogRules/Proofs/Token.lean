import DialogRules.Token

/-!
# What the texts of tokens stand for

The kind of a token determines its text, up to which word it is: there is
one text for each parenthesis and for each member of the two vocabularies
of symbols.
-/

namespace DialogRules

namespace Token

/-- The opening parenthesis. -/
def openParen : Token := ⟨"("⟩

/-- The closing parenthesis. -/
def closeParen : Token := ⟨")"⟩

@[simp] theorem kind_openParen : openParen.kind = .openParen := by decide

@[simp] theorem kind_closeParen : closeParen.kind = .closeParen := by decide

@[simp] theorem kind_connective (c : Connective) : kind ⟨c.text⟩ = .connective c := by
  cases c <;> decide

@[simp] theorem kind_compare (op : CompareOp) : kind ⟨op.text⟩ = .compare op := by
  cases op <;> decide

theorem eq_openParen_of_kind {t : Token} (h : t.kind = .openParen) : t = openParen := by
  obtain ⟨text⟩ := t
  grind [kind, openParen]

theorem eq_closeParen_of_kind {t : Token} (h : t.kind = .closeParen) : t = closeParen := by
  obtain ⟨text⟩ := t
  grind [kind, closeParen]

theorem eq_of_kind_connective {t : Token} {c : Connective} (h : t.kind = .connective c) :
    t = ⟨c.text⟩ := by
  obtain ⟨text⟩ := t
  have hc : (Vocabulary.ofText? text : Option Connective) = some c := by grind [kind]
  rw [← Vocabulary.ofText?_eq_some_iff.1 hc]
  rfl

theorem eq_of_kind_compare {t : Token} {op : CompareOp} (h : t.kind = .compare op) :
    t = ⟨op.text⟩ := by
  obtain ⟨text⟩ := t
  have hop : (Vocabulary.ofText? text : Option CompareOp) = some op := by grind [kind]
  rw [← Vocabulary.ofText?_eq_some_iff.1 hop]
  rfl

/-- A token of another kind is no word. -/
theorem isWord_eq_false {t : Token} (h : ∀ w, t.kind ≠ .word w) : t.isWord = false := by
  cases hw : t.isWord with
  | false => rfl
  | true =>
    obtain ⟨w, hk⟩ := exists_kind_eq_word_iff.2 hw
    exact absurd hk (h w)

end Token

end DialogRules
