import DialogRules.Proofs.Condition.Nesting
import DialogRules.Proofs.Statement
import DialogRules.Screen

/-!
# What the screen and the scan let through

The screen passes the lines that are statements about an action, with
balanced characters and no lexeme that a condition may not hold
(`Statement.screen_eq_ok_iff`). Of such a condition nothing but blanks is
lost between its text and its tokens, so its tokens are balanced too
(`Condition.Screened.depthAfter?_tokens`).

The strict scan goes over pieces like the reader, whatever the levels, and
stops at the first atom that the reader would advise about
(`Atom.fault?_append`).
-/

namespace DialogRules

namespace Lexeme

/-- A condition may hold any word. -/
theorem isAllowed_of_isWord {t : Token} (h : t.isWord = true) : isAllowed (.token t) = true := by
  obtain ⟨w, hk⟩ := Token.exists_kind_eq_word_iff.2 h
  simp [isAllowed, hk]

/-- The tokens that no condition may hold are the semicolon and the plus
sign. -/
theorem isAllowed_token_iff {t : Token} (h : IsTokenText t.text) :
    isAllowed (.token t) = true ↔ t.text ≠ ";" ∧ t.text ≠ "+" := by
  obtain ⟨text⟩ := t
  rcases h with hsymbol | hword
  · simp only at hsymbol
    revert text
    decide
  · have hne : ∀ s, Text.isWord s = false → text ≠ s := by
      rintro s hs rfl
      rw [hs] at hword
      cases hword
    exact iff_of_true (isAllowed_of_isWord hword) ⟨hne ";" (by decide), hne "+" (by decide)⟩

/-- What a condition may hold: tokens other than these two. -/
theorem isAllowed_iff_of_mem {s : String} {l : Lexeme} (h : l ∈ ofString s) :
    l.isAllowed = true ↔ ∃ t, l = .token t ∧ t.text ≠ ";" ∧ t.text ≠ "+" := by
  cases l with
  | stray c => simp [isAllowed]
  | token t =>
    rw [isAllowed_token_iff (isTokenText_of_mem h)]
    simp

theorem disallowed?_eq_none_iff {s : String} :
    disallowed? s = none ↔ ∀ l ∈ ofString s, l.isAllowed = true := by
  simp [disallowed?]

/-- Without stray characters a text is its tokens. -/
theorem ofString_eq_map {s : String} (h : ∀ l ∈ ofString s, l.isAllowed = true) :
    ofString s = (Token.ofString s).map .token :=
  eq_map_token_iff.2 ⟨rfl, fun _ hc => absurd (h _ hc) Bool.false_ne_true⟩

end Lexeme

/-- What the screen asks of the text of a condition. -/
structure Condition.Screened (s : String) : Prop where
  /-- Its parentheses are balanced, as characters. -/
  balanced : Text.isBalanced s = true
  /-- It holds nothing that a condition may not hold. -/
  allowed : ∀ l ∈ Lexeme.ofString s, l.isAllowed = true

namespace Condition.Screened

variable {s : String}

/-- A token that is passed over in such a condition is a comparison. -/
theorem isStrict_idle (h : Screened s) {t : Token} (hmem : t ∈ Token.ofString s)
    (hidle : Piece.IsIdle t) : Piece.IsStrict (.idle t) := by
  obtain ⟨l, hl, hlt⟩ := List.mem_filterMap.1 hmem
  have hallowed := h.allowed l hl
  cases l with
  | stray c => cases hlt
  | token t' =>
    cases hlt
    rcases hidle with hcompare | hkind | hkind
    · exact Piece.isStrict_idle.2 hcompare
    · simp [Lexeme.isAllowed, hkind] at hallowed
    · simp [Lexeme.isAllowed, hkind] at hallowed

/-- The tokens of such a condition open and close what its characters
do. -/
theorem depthAfter?_tokens (h : Screened s) :
    Text.depthAfter? 0 (Piece.chars (Token.ofString s)) = some 0 := by
  have hbalanced := Text.isBalanced_iff.1 h.balanced
  rw [Lexeme.ofString_eq_map h.allowed, List.flatMap_map] at hbalanced
  exact hbalanced

end Condition.Screened

namespace Statement

/-- A line that is written as a statement ends in a semicolon. -/
theorem Written.getLast?_eq {s : Statement} {line : String} (h : s.Written line) :
    (Text.trim line).toList.getLast? = some terminator := by
  obtain ⟨body, hline, -⟩ := written_iff.1 h
  rw [hline, List.getLast?_concat]

/-- A statement about an action is screened by its condition alone: first
by the characters of it and then by its lexemes. -/
theorem screen_of_written {a : Action} {line condition : String}
    (h : Written ⟨a.text, condition⟩ line) :
    screen line =
      if Text.isBalanced condition = false then .error .unbalancedParentheses
      else
        match Lexeme.disallowed? condition with
        | some text => .error (.disallowedToken text)
        | none => .ok condition := by
  have haction : (Vocabulary.ofText? a.text : Option Action) = some a := Vocabulary.ofText?_text a
  rw [screen, if_neg (by rw [h.getLast?_eq]; simp), ofLine?_eq_some_iff.2 h]
  cases hbalanced : Text.isBalanced condition with
  | false => simp [haction, hbalanced]
  | true =>
    cases hfound : Lexeme.disallowed? condition <;> simp [haction, hbalanced, hfound]

/-- The screen looks at no atom and asks for no element. -/
theorem screen_ne_error (line : String) :
    (∀ a, screen line ≠ .error (.malformedAtom a)) ∧
      ∀ names, screen line ≠ .error (.unknownElements names) := by
  fun_cases screen line <;> exact ⟨nofun, nofun⟩

/-- **What the screen lets through.** -/
theorem screen_eq_ok_iff {line condition : String} :
    screen line = .ok condition ↔
      (∃ a : Action, Written ⟨a.text, condition⟩ line) ∧ Condition.Screened condition := by
  constructor
  · intro h
    rw [screen] at h
    split at h
    · cases h
    · split at h
      · cases h
      · rename_i action condition' hline
        split at h
        · cases h
        · rename_i haction
          split at h
          · cases h
          · rename_i hbalanced
            split at h
            · cases h
            · rename_i hallowed
              cases h
              obtain ⟨a, ha⟩ : ∃ a : Action, Vocabulary.ofText? action = some a :=
                Option.ne_none_iff_exists'.1 (by simpa using haction)
              have htext : a.text = action := Vocabulary.ofText?_eq_some_iff.1 ha
              exact ⟨⟨a, htext ▸ ofLine?_eq_some_iff.1 hline⟩,
                { balanced := by simpa using hbalanced
                  allowed := Lexeme.disallowed?_eq_none_iff.1 hallowed }⟩
  · rintro ⟨⟨a, hwritten⟩, hbalanced, hallowed⟩
    rw [screen_of_written hwritten]
    simp [hbalanced, Lexeme.disallowed?_eq_none_iff.2 hallowed]

end Statement

namespace Atom

/-- The scan stops at an atom for the first advisory about it. -/
theorem fault?_atom {a : Atom} (h : Text.isWord a.subject = true) (ts : List Token) :
    fault? (Piece.tokens (.atom a) ++ ts) =
      (a.advisories.head?.map .malformedAtom).or (fault? ts) := by
  have hword : Token.isWord ⟨a.subject⟩ = true := h
  rw [Piece.tokens, List.cons_append, fault?.eq_def]
  simp only [hword, if_true, List.cons_append, List.nil_append]
  rw [advisories, compareOp?, predicate?]
  cases (Vocabulary.ofText? a.operator : Option CompareOp) with
  | none => rfl
  | some op =>
    cases Predicate.ofText? a.predicate with
    | none => rfl
    | some p => rfl

/-- And passes over every other piece. -/
theorem fault?_of_not_isWord {t : Token} (h : t.isWord = false) (ts : List Token) :
    fault? (t :: ts) = fault? ts := by
  rw [fault?.eq_def]
  simp [h]

/-- **The scan finds what the reader advises about**: over some pieces, the
first advisory about their atoms, and otherwise what stands behind
them. -/
theorem fault?_append {ps : List Piece} (hps : ∀ p ∈ ps, p.IsProper) (ts : List Token) :
    fault? (Piece.tokensOf ps ++ ts) =
      (((Piece.atomsOf ps).flatMap advisories).head?.map .malformedAtom).or (fault? ts) := by
  induction ps with
  | nil => rfl
  | cons p ps ih =>
    obtain ⟨hp, hrest⟩ := List.forall_mem_cons.1 hps
    have ih := ih hrest
    rw [Piece.tokensOf_cons, List.append_assoc, Piece.atomsOf_cons]
    cases p with
    | atom a =>
      rw [fault?_atom hp, ih]
      cases ha : a.advisories with
      | nil => simp [Piece.atom?, ha]
      | cons d ds => simp [Piece.atom?, ha]
    -- what is no atom does not start with a word, so the scan passes over it
    | openParen => exact (fault?_of_not_isWord (by decide) _).trans ih
    | closeParen => exact (fault?_of_not_isWord (by decide) _).trans ih
    | connective c => exact (fault?_of_not_isWord (by cases c <;> decide) _).trans ih
    | idle t => exact (fault?_of_not_isWord (Piece.isWord_eq_false_of_isIdle hp) _).trans ih

end Atom

end DialogRules
