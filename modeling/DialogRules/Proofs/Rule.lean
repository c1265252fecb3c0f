import DialogRules.Proofs.Condition.RoundTrip
import DialogRules.Proofs.Draft
import DialogRules.Proofs.Line

/-!
# The line of a rule

A rule whose atoms are spelled is written on a line of its own, whatever
its atoms hold (`Rule.isLine_render`). The line is a statement with the
halves that it was written from (`Rule.ofLine?_render`), but for one
exception: the sequence of no terms is written as no text, and a line
with nothing for a condition is no statement (`Rule.ofLine?_render_of_isEmpty`).
So the draft of the line stands for the rule, or there is no draft.
-/

namespace DialogRules

open Text (IsLine)

/-! ## Conditions stand on a line -/

theorem Condition.isEmpty_iff {c : Condition} : c.isEmpty = true ↔ c = .sequence [] := by
  fun_cases isEmpty c <;> simp_all

/-- The text of a token is a line. -/
theorem Lexeme.IsTokenText.isLine {s : String} (h : IsTokenText s) : IsLine s := by
  rcases h with hsymbol | hword
  · exact Text.isLine_of_isBlank (fun c hc => (isBlank_isWordChar_of_mem_symbols hsymbol hc).1)
      (Text.toList_ne_nil.1 (toList_ne_nil_of_mem_symbols hsymbol))
  · simp only [Text.isWord, Bool.and_eq_true, List.all_eq_true, Bool.not_eq_true',
      List.isEmpty_eq_false_iff] at hword
    exact Text.isLine_of_isBlank (fun c hc => Text.isBlank_of_isWordChar (hword.2 c hc))
      (Text.toList_ne_nil.1 hword.1)

/-- An atom is written on a line if its parts are. -/
theorem Atom.isLine_render {a : Atom} (hsubject : IsLine a.subject) (hoperator : IsLine a.operator)
    (hpredicate : IsLine a.predicate) : IsLine a.render :=
  (hsubject.append hoperator (by decide)).append hpredicate (by decide)

theorem Atom.IsSpelled.isLine_render {a : Atom} (h : a.IsSpelled) : IsLine a.render :=
  Atom.isLine_render (Lexeme.IsTokenText.isLine (.inr h.subject)) h.operator.isLine
    h.predicate.isLine

/-- The empty condition is written as no text, which is no line but not
broken either. -/
theorem Condition.unbroken_render {c : Condition} (h : c.isEmpty = false → IsLine c.render) :
    '\n' ∉ c.render.toList := by
  cases he : c.isEmpty with
  | false => exact (h he).unbroken
  | true =>
    rw [isEmpty_iff.1 he]
    decide

mutual

/-- **The text of a condition is a line**, unless the condition is
empty. -/
theorem Condition.isLine_render (c : Condition) (h : ∀ a ∈ c.atoms, a.IsSpelled)
    (hne : c.isEmpty = false) : IsLine c.render := by
  match c with
  | .atom a => exact (h a (by simp [Condition.atoms])).isLine_render
  | .sequence ts =>
    have hts : ts ≠ [] := by
      rintro rfl
      cases hne
    exact Term.isLine_renderList ts h hts

/-- The text of a term is a line. -/
theorem Term.isLine_render (t : Term) (h : ∀ a ∈ t.atoms, a.IsSpelled) : IsLine t.render := by
  match t with
  | .atom a => exact (h a (by simp [Term.atoms])).isLine_render
  | .connective c => exact Lexeme.IsTokenText.isLine (.inl (by cases c <;> decide))
  | .group inner =>
    -- an empty group is written as its parentheses alone
    have hinner : '\n' ∉ inner.render.toList :=
      Condition.unbroken_render (Condition.isLine_render inner h)
    have hopen : IsLine "(" := Lexeme.IsTokenText.isLine (by decide)
    exact hopen.append (Lexeme.IsTokenText.isLine (by decide)) hinner

/-- The texts of the terms of a level are a line, with a space between
each two. -/
theorem Term.isLine_renderList (ts : List Term) (h : ∀ a ∈ Term.atomsOfList ts, a.IsSpelled)
    (hne : ts ≠ []) : IsLine (" ".intercalate (Term.renderList ts)) := by
  match ts with
  | [] => exact absurd rfl hne
  | t :: ts =>
    have ht : IsLine t.render := Term.isLine_render t fun a ha => h a (List.mem_append_left _ ha)
    match ts with
    | [] => simpa [Term.renderList] using ht
    | u :: us =>
      have hus := Term.isLine_renderList (u :: us)
        (fun a ha => h a (List.mem_append_right _ ha)) (List.cons_ne_nil u us)
      have hcons : Term.renderList (u :: us) ≠ [] := by simp [Term.renderList]
      rw [Term.renderList, String.intercalate_cons_of_ne_nil hcons]
      exact ht.append hus (by decide)

end

/-! ## The statement of a rule -/

theorem Action.isWord_text (a : Action) : Text.isWord a.text = true := by
  cases a <;> decide

namespace Rule

variable {r : Rule}

/-- A rule is a line as it is written, if its condition is not broken. -/
theorem isLine_of_unbroken (h : '\n' ∉ r.condition.render.toList) : IsLine r.render := by
  have haction : IsLine r.action.text := Lexeme.IsTokenText.isLine (.inr r.action.isWord_text)
  have hsemicolon : IsLine ";" := Lexeme.IsTokenText.isLine (by decide)
  have hbetween : '\n' ∉ (" " ++ ifWord ++ " " ++ r.condition.render).toList := by
    simp [h, ifWord]
  simpa [render, String.append_assoc] using haction.append hsemicolon hbetween

/-- **A rule is written on a line of its own.** -/
theorem isLine_render (h : ∀ a ∈ r.condition.atoms, a.IsSpelled) : IsLine r.render :=
  isLine_of_unbroken (Condition.unbroken_render (r.condition.isLine_render h))

/-- The line of a rule has the shape of a statement, if its condition is
written on a line. -/
theorem written_of_isLine (h : IsLine r.condition.render) :
    Statement.Written ⟨r.action.text, r.condition.render⟩ r.render := by
  have hspace : Text.AreBlanks " ".toList := by decide
  have hnone : Text.AreBlanks "".toList := by decide
  refine ⟨⟨" ", " ", "", ?_, hspace, by decide, hspace, by decide, hnone⟩, r.action.isWord_text,
    h.nonempty, h.trimmed⟩
  rw [Text.trim_eq_self (isLine_of_unbroken h.unbroken).trimmed, render, String.append_empty]

/-- So it has if there is something for a condition. -/
theorem written_render (h : ∀ a ∈ r.condition.atoms, a.IsSpelled)
    (hne : r.condition.isEmpty = false) :
    Statement.Written ⟨r.action.text, r.condition.render⟩ r.render :=
  written_of_isLine (r.condition.isLine_render h hne)

/-- **The line of a rule is a statement**, with the halves that it was
written from. -/
theorem ofLine?_render (h : ∀ a ∈ r.condition.atoms, a.IsSpelled)
    (hne : r.condition.isEmpty = false) :
    Statement.ofLine? r.render = some ⟨r.action.text, r.condition.render⟩ :=
  Statement.ofLine?_eq_some_iff.2 (written_render h hne)

/-- The line of a rule with an empty condition is none. -/
theorem ofLine?_render_of_isEmpty (h : r.condition.isEmpty = true) :
    Statement.ofLine? r.render = none := by
  obtain ⟨action, condition⟩ := r
  have hempty : condition = .sequence [] := Condition.isEmpty_iff.1 h
  subst hempty
  cases action <;> decide +kernel

end Rule

/-! ## The draft of a rule -/

namespace Draft

variable {r : Rule} {line : Line}

/-- The line of a rule is a draft, and its reading gives the rule's
condition and atoms. -/
theorem ofLine?_of_render (h : line.text = r.render) (hnormal : r.condition.Normal)
    (hne : r.condition.isEmpty = false) :
    ofLine? line = some ⟨line, r.action, ⟨.ok r.condition, r.condition.atoms, []⟩⟩ := by
  refine ofLine?_eq_some_iff.2 ⟨rfl, r.condition.render, ?_, ?_⟩
  · rw [h, Rule.ofLine?_render hnormal.spelled hne]
  · rw [Condition.read_render hnormal]

/-- The line of a rule with an empty condition is no draft. -/
theorem ofLine?_of_render_of_isEmpty (h : line.text = r.render)
    (hempty : r.condition.isEmpty = true) : ofLine? line = none := by
  rw [ofLine?, h, Rule.ofLine?_render_of_isEmpty hempty]
  rfl

end Draft

end DialogRules
