import DialogRules.Proofs.Layout.RoundTrip
import DialogRules.Proofs.Spacing

/-!
# Integers in atoms

An atom may be built with any integer to compare with, but the language has
no minus sign. What is written for an integer below zero is cut into a stray
character and the digits (`Operand.ofString_render_integer`). The reader
passes over the sign, so what comes back is the atom about the absolute
value, and nothing is advised (`Element.read_render_compare`). The check of
a line sees the sign and refuses the line (`Element.screen_render_compare`).
-/

namespace DialogRules

/-! ## The text of an integer -/

/-- The decimal text of a number is a numeral. -/
theorem Text.isNumeral_toString (n : Nat) : isNumeral (toString n) = true := by
  rw [Nat.toString_eq_ofList_toDigits, isNumeral, String.toList_ofList, Bool.and_eq_true,
    List.all_eq_true]
  refine ⟨by simp [Nat.toDigits_ne_nil], fun c hc => ?_⟩
  exact Nat.isDigit_of_mem_toDigits (by decide) (by decide) hc

/-- So it is a word. -/
theorem Text.isWord_toString (n : Nat) : isWord (toString n) = true :=
  isWord_of_isNumeral (isNumeral_toString n)

namespace Operand

variable {n : Int}

theorem render_integer_of_nonneg (h : 0 ≤ n) : (integer n).render = toString n.natAbs := by
  obtain ⟨m, rfl⟩ := Int.eq_ofNat_of_zero_le h
  rfl

theorem toList_render_integer_of_neg (h : n < 0) :
    (integer n).render.toList = '-' :: (toString n.natAbs).toList := by
  obtain ⟨m, rfl⟩ := Int.eq_negSucc_of_lt_zero h
  exact String.toList_append

/-- **The sign of an integer is stray**, and its digits are a token. -/
theorem ofString_render_integer (n : Int) :
    Lexeme.ofString (integer n).render =
      (if n < 0 then [.stray '-'] else []) ++ [.token ⟨toString n.natAbs⟩] := by
  have hdigits : Lexeme.ofString (toString n.natAbs) = [.token ⟨toString n.natAbs⟩] :=
    (Lexeme.spells_tokenText (.inr (Text.isWord_toString n.natAbs))).lexemes_eq
  by_cases h : n < 0
  · have hsymbol : Lexeme.symbol? ('-' :: (toString n.natAbs).toList) = none :=
      Lexeme.symbol?_eq_none_iff.2 ⟨by decide, fun hmem => absurd hmem (by decide)⟩
    rw [if_pos h, Lexeme.ofString, toList_render_integer_of_neg h,
      Lexeme.ofChars_cons (by decide), Lexeme.next_stray hsymbol (by decide), ← Lexeme.ofString,
      hdigits, List.singleton_append]
  · rw [if_neg h, render_integer_of_nonneg (Int.not_lt.1 h), hdigits, List.nil_append]

/-- The text of an integer is a word if it has no sign. -/
theorem isWord_render_integer_iff : Text.isWord (integer n).render = true ↔ 0 ≤ n := by
  constructor
  · intro hword
    by_contra h
    have hsign : '-' ∈ (integer n).render.toList := by
      rw [toList_render_integer_of_neg (Int.not_le.1 h)]
      exact List.mem_cons_self
    exact absurd ((Text.isWord_iff.1 hword).2 '-' hsign) (by decide)
  · intro h
    rw [render_integer_of_nonneg h]
    exact Text.isWord_toString n.natAbs

/-- The text of an integer is a sign, if it has one, and word characters. -/
theorem eq_or_isWordChar_of_mem_render {c : Char} (hc : c ∈ (integer n).render.toList) :
    c = '-' ∨ Text.isWordChar c = true := by
  have hdigits := (Text.isWord_iff.1 (Text.isWord_toString n.natAbs)).2
  by_cases h : n < 0
  · rw [toList_render_integer_of_neg h] at hc
    exact (List.mem_cons.1 hc).imp_right (hdigits c)
  · rw [render_integer_of_nonneg (Int.not_lt.1 h)] at hc
    exact .inr (hdigits c hc)

/-- So it has no blank, and stands on a line. -/
theorem isLine_render_integer (n : Int) : Text.IsLine (integer n).render := by
  refine Text.isLine_of_isBlank (fun c hc => ?_) fun hempty => ?_
  · rcases eq_or_isWordChar_of_mem_render hc with rfl | hword
    · decide
    · exact Text.isBlank_of_isWordChar hword
  · -- no text has no lexemes, but there are digits
    have hlexemes := ofString_render_integer n
    rw [hempty] at hlexemes
    simp [Lexeme.ofString, Lexeme.ofChars] at hlexemes

/-- And it has no parenthesis. -/
theorem hasNoParens_render_integer (n : Int) : Text.HasNoParens (integer n).render.toList := by
  intro c hc
  rcases eq_or_isWordChar_of_mem_render hc with rfl | hword
  · decide
  · constructor <;> rintro rfl <;> exact absurd hword (by decide)

end Operand

/-! ## The atom -/

/-- **An atom is cut into what its parts are cut into**, whatever these
are. -/
theorem Atom.ofString_render (a : Atom) :
    Lexeme.ofString a.render =
      Lexeme.ofString a.subject ++ Lexeme.ofString a.operator ++ Lexeme.ofString a.predicate := by
  have hspace : Text.isBlank ' ' = true := by decide
  have hdivided := Lexeme.ofString_append_blank hspace
  exact (hdivided _ _).trans (congrArg (· ++ _) (hdivided _ _))

theorem CompareOp.text_mem_symbols (op : CompareOp) : op.text ∈ Lexeme.symbols := by
  cases op <;> decide

/-- The parts of an atom about a number are tokens. -/
theorem Atom.isSpelled_number {name : String} (h : Text.isWord name = true) (op : CompareOp)
    (m : Nat) : IsSpelled ⟨name, op.text, toString m⟩ where
  subject := h
  operator := .inl op.text_mem_symbols
  predicate := .inr (Text.isWord_toString m)

theorem Condition.normal_number {name : String} (h : Text.isWord name = true) (op : CompareOp)
    (m : Nat) : Normal (.atom ⟨name, op.text, toString m⟩) where
  spelled := List.forall_mem_singleton.2 (Atom.isSpelled_number h op m)
  unwrapped := rfl
  shallow := Nat.zero_le _

namespace Element

variable {e : Element} {op : CompareOp} {n : Int}

theorem compare_of_nonneg (h : 0 ≤ n) :
    e.compare op (.integer n) = ⟨e.name, op.text, toString n.natAbs⟩ := by
  rw [compare, Operand.render_integer_of_nonneg h]

/-- An atom with an integer is well formed if the integer has no sign. -/
theorem isWellFormed_compare_iff : (e.compare op (.integer n)).isWellFormed = true ↔ 0 ≤ n := by
  constructor
  · intro h
    have hword : Text.isWord (e.compare op (.integer n)).predicate = true :=
      Atom.isWord_predicate_of_isWellFormed h
    exact Operand.isWord_render_integer_iff.1 hword
  · intro h
    have hnumeral : Text.isNumeral (toString n.natAbs) = true := Text.isNumeral_toString _
    rw [compare_of_nonneg h, Atom.isWellFormed_iff]
    exact ⟨⟨op, rfl⟩, .inr hnumeral⟩

/-- The lexemes of the atom are those of the atom about the absolute value,
but for the sign. -/
theorem ofString_render_compare (hname : Text.isWord e.name = true) :
    Lexeme.ofString (e.compare op (.integer n)).render =
      [.token ⟨e.name⟩, .token ⟨op.text⟩] ++ (if n < 0 then [.stray '-'] else []) ++
        [.token ⟨toString n.natAbs⟩] := by
  have hspelled := Atom.isSpelled_number hname op n.natAbs
  have hsubject := (Lexeme.spells_tokenText (.inr hspelled.subject)).lexemes_eq
  have hoperator := (Lexeme.spells_tokenText hspelled.operator).lexemes_eq
  rw [Atom.ofString_render, compare, hsubject, hoperator, Operand.ofString_render_integer,
    List.append_assoc _ _ [_]]
  rfl

/-- So their tokens are the same. -/
theorem tokens_render_compare (hname : Text.isWord e.name = true) :
    Token.ofString (e.compare op (.integer n)).render =
      Piece.tokens (.atom ⟨e.name, op.text, toString n.natAbs⟩) := by
  rw [Token.ofString, ofString_render_compare hname]
  split <;> rfl

/-- **What comes back is the atom about the absolute value.** -/
theorem read_render_compare (hname : Text.isWord e.name = true) :
    Condition.read (e.compare op (.integer n)).render =
      ⟨.ok (.atom ⟨e.name, op.text, toString n.natAbs⟩), [⟨e.name, op.text, toString n.natAbs⟩],
        []⟩ := by
  have hread := Condition.read_render (Condition.normal_number hname op n.natAbs)
  have hspells := (Atom.isSpelled_number hname op n.natAbs).spells
  rw [Condition.read, Condition.render, hspells.ofString_eq] at hread
  rw [Condition.read, tokens_render_compare hname]
  exact hread

/-! ## The line -/

/-- The atom is written on a line, with its sign if it has one. -/
theorem isLine_render_compare (hname : Text.isWord e.name = true) :
    Text.IsLine (e.compare op (.integer n)).render :=
  Atom.isLine_render (Lexeme.IsTokenText.isLine (.inr hname))
    (Lexeme.IsTokenText.isLine (.inl op.text_mem_symbols)) (Operand.isLine_render_integer n)

/-- There is no parenthesis in it that could be unbalanced. -/
theorem isBalanced_render_compare (hname : Text.isWord e.name = true) :
    Text.isBalanced (e.compare op (.integer n)).render = true := by
  have hoperator : Text.HasNoParens op.text.toList := by cases op <;> decide
  have hspace : Text.HasNoParens " ".toList := by decide
  refine Text.isBalanced_of_hasNoParens ?_
  simp only [Atom.render, String.toList_append]
  exact ((((Text.hasNoParens_of_isWord hname).append hspace).append hoperator).append hspace).append
    (Operand.hasNoParens_render_integer n)

/-- The sign is what a condition may not hold. -/
theorem disallowed?_render_compare (hname : Text.isWord e.name = true) (h : n < 0) :
    Lexeme.disallowed? (e.compare op (.integer n)).render = some "-" := by
  have hsubject : Lexeme.isAllowed (.token ⟨e.name⟩) = true := Lexeme.isAllowed_of_isWord hname
  have hoperator : Lexeme.isAllowed (.token ⟨op.text⟩) = true := by cases op <;> decide
  rw [Lexeme.disallowed?, ofString_render_compare hname, if_pos h]
  simp only [List.cons_append, List.find?_cons, hsubject, hoperator, Bool.not_true]
  rfl

/-- **The screen refuses the line for the sign.** -/
theorem screen_render_compare (hname : Text.isWord e.name = true) (h : n < 0) (action : Action) :
    Statement.screen (Rule.render ⟨action, .atom (e.compare op (.integer n))⟩) =
      .error (.disallowedToken "-") := by
  have hwritten := Rule.written_of_isLine (r := ⟨action, .atom (e.compare op (.integer n))⟩)
    (isLine_render_compare hname)
  rw [Statement.screen_of_written hwritten]
  simp [Condition.render, isBalanced_render_compare hname, disallowed?_render_compare hname h]

end Element

namespace Layout

variable {layout : Layout} {e : Element} {op : CompareOp} {n : Int}

/-- **A line about a number is accepted**, if the element is known. -/
theorem checkLine_render_compare (hname : Text.isWord e.name = true) (hknown : e.name ∈ layout)
    (h : 0 ≤ n) (action : Action) :
    layout.checkLine (Rule.render ⟨action, .atom (e.compare op (.integer n))⟩) =
      .ok (Elements.ofList [e.name]) := by
  have hformed : (e.compare op (.integer n)).isWellFormed = true :=
    Element.isWellFormed_compare_iff.2 h
  rw [Element.compare_of_nonneg h] at hformed ⊢
  let r : Rule := ⟨action, .atom ⟨e.name, op.text, toString n.natAbs⟩⟩
  have hadmits : layout.Admits r.render action r.condition.render r.condition.pieces :=
    admits_render (Condition.normal_number hname op n.natAbs) rfl
      (List.forall_mem_singleton.2 ⟨hformed, hknown⟩)
  exact hadmits.checkLine_eq

/-- **Integers as bounds.** An atom that is built with an integer is well
formed if the integer has no sign. Its text is read without an advisory as
the atom about the absolute value, so the atom comes back if there was no
sign to lose. A layout with the element accepts the line of a rule about the
atom in that case, and else refuses the sign. -/
theorem read_and_checkLine_compare_integer (hname : Text.isWord e.name = true) (op : CompareOp)
    (n : Int) :
    let a := e.compare op (.integer n)
    (a.isWellFormed = true ↔ 0 ≤ n) ∧
    (Condition.read a.render).result = .ok (.atom ⟨e.name, op.text, toString n.natAbs⟩) ∧
    (Condition.read a.render).advisories = [] ∧
    ((Condition.read a.render).result = .ok (.atom a) ↔ 0 ≤ n) ∧
    ∀ (action : Action) (layout : Layout), e.name ∈ layout →
      layout.checkLine (Rule.render ⟨action, .atom a⟩) =
        if 0 ≤ n then .ok (Elements.ofList [e.name]) else .error (.disallowedToken "-") := by
  intro a
  have hread : Condition.read a.render = _ := Element.read_render_compare hname
  have hformed : a.isWellFormed = true ↔ 0 ≤ n := Element.isWellFormed_compare_iff
  have hmagnitude : Atom.isWellFormed ⟨e.name, op.text, toString n.natAbs⟩ = true :=
    Element.isWellFormed_compare_iff (n := n.natAbs).2 (Int.natCast_nonneg _)
  refine ⟨hformed, by rw [hread], ?_, ?_, fun action layout hknown => ?_⟩
  · rw [hread, Reading.advisories_eq_nil_iff]
    exact List.forall_mem_singleton.2 hmagnitude
  · rw [hread]
    constructor
    · -- what comes back is well formed, so the atom has to be
      intro hback
      rw [← hformed, ← Condition.atom.inj (Except.ok.inj hback)]
      exact hmagnitude
    · intro h
      have ha : a = ⟨e.name, op.text, toString n.natAbs⟩ := Element.compare_of_nonneg h
      rw [ha]
  · by_cases h : 0 ≤ n
    · rw [if_pos h, checkLine_render_compare hname hknown h]
    · rw [if_neg h]
      exact checkLine_of_screen_error layout
        (Element.screen_render_compare hname (Int.not_le.1 h) action)

/-- The least integer of 64 bits: its absolute value has none of its own
there, but is written and read back. -/
theorem read_and_checkLine_compare_least :
    let a := Element.compare ⟨"if"⟩ .le (.integer (-9223372036854775808))
    a.render = "if <= -9223372036854775808" ∧ a.isWellFormed = false ∧
      (Condition.read a.render).result = .ok (.atom ⟨"if", "<=", "9223372036854775808"⟩) ∧
      "if" ∈ ofList ["if"] ∧
      (ofList ["if"]).checkLine (Rule.render ⟨.reveal, .atom a⟩) =
        .error (.disallowedToken "-") := by
  intro a
  have hname : Text.isWord (Element.mk "if").name = true := by decide
  have hknown : "if" ∈ ofList ["if"] := by decide
  obtain ⟨hformed, hread, -, -, hcheck⟩ :=
    read_and_checkLine_compare_integer hname .le (-9223372036854775808)
  refine ⟨by decide +kernel, ?_, hread, hknown, hcheck .reveal _ hknown⟩
  exact Bool.eq_false_iff.2 (mt hformed.1 (by decide))

end Layout

end DialogRules
