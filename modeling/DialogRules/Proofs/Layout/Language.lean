import DialogRules.Proofs.Elements
import DialogRules.Proofs.Layout.Agreement

/-!
# The language of accepted lines

What a layout accepts is said here without the checks: how the line is
written, of what lexemes its condition consists, which pieces these make
up, how the parentheses among them nest and what elements the atoms are
about (`Layout.Admits`). The checks come one after another and each sees
the condition its own way, as characters, as lexemes, as tokens or as
what the reader made of them; together they let exactly these lines
through (`checkLine_eq_ok_iff`).
-/

namespace DialogRules

namespace Layout

/-- The lines that a layout accepts, with the pieces of their
condition. -/
structure Admits (layout : Layout) (line : String) (action : Action) (condition : String)
    (ps : List Piece) : Prop where
  /-- The line is written as a statement about an action. -/
  written : Statement.Written ⟨action.text, condition⟩ line
  /-- The condition holds no stray character, no semicolon and no plus
  sign. -/
  lexemes : ∀ l ∈ Lexeme.ofString condition, ∃ t, l = .token t ∧ t.text ≠ ";" ∧ t.text ≠ "+"
  /-- The tokens of the condition are those of the pieces. -/
  tokens : Token.ofString condition = Piece.tokensOf ps
  /-- The pieces keep to the vocabularies. -/
  strict : ∀ p ∈ ps, p.IsStrict
  /-- The parentheses are balanced and nest no deeper than the reader
  goes. -/
  nested : Piece.Nested maxNesting ps
  /-- The layout has the elements that the atoms are about. -/
  known : ∀ a ∈ Piece.atomsOf ps, a.subject ∈ layout

variable {layout : Layout} {line condition : String} {es : Elements}

/-- The elements that some atoms are about are known if the subjects
are. -/
theorem forall_mem_elements_iff {r : Reading} {as : List Atom} (h : r.atoms = as) :
    (∀ name ∈ r.elements, name ∈ layout) ↔ ∀ a ∈ as, a.subject ∈ layout := by
  simp [Reading.elements, Reading.subjects, Elements.mem_ofList, h]

/-- Strict pieces that nest are read to the end, and nothing is advised
about their atoms. -/
theorem Admits.read_eq {action : Action} {ps : List Piece}
    (h : layout.Admits line action condition ps) :
    ∃ l, Levels.Run Levels.initial ps l ∧ l.outer = [] ∧
      Condition.read condition = ⟨.ok l.close, Piece.atomsOf ps, []⟩ := by
  obtain ⟨l, hrun, hout⟩ := Levels.exists_run_outermost_iff.2 h.nested
  have hproper : ∀ p ∈ ps, p.IsProper := fun p hp => (h.strict p hp).isProper
  have hread := Levels.read_eq hproper hrun Levels.Halt.done
  rw [List.append_nil, ← h.tokens] at hread
  exact ⟨l, hrun, hout, hread⟩

/-- The condition of an admitted line passes the screen. -/
theorem Admits.screened {action : Action} {ps : List Piece}
    (h : layout.Admits line action condition ps) : Condition.Screened condition := by
  have hallowed : ∀ l ∈ Lexeme.ofString condition, l.isAllowed = true := fun l hl =>
    (Lexeme.isAllowed_iff_of_mem hl).2 (h.lexemes l hl)
  refine ⟨?_, hallowed⟩
  obtain ⟨l, hrun, hout, -⟩ := h.read_eq
  have hdepth := hrun.depthAfter?_eq h.strict
  rw [hout, ← h.tokens] at hdepth
  rw [Text.isBalanced_iff, Lexeme.ofString_eq_map hallowed, List.flatMap_map]
  exact hdepth

/-- An admitted line is accepted, with the subjects of its atoms. -/
theorem Admits.checkLine_eq {action : Action} {ps : List Piece}
    (h : layout.Admits line action condition ps) :
    layout.checkLine line = .ok (Elements.ofList ((Piece.atomsOf ps).map Atom.subject)) := by
  obtain ⟨l, -, -, hread⟩ := h.read_eq
  refine checkLine_eq_ok_iff_judge.2 ⟨condition, ?_, ?_⟩
  · exact Statement.screen_eq_ok_iff.2 ⟨⟨action, h.written⟩, h.screened⟩
  · have hatoms : (Condition.read condition).atoms = Piece.atomsOf ps := by rw [hread]
    refine judge_eq_ok_iff.2 ⟨⟨l.close, by rw [hread]⟩, ?_, ?_, ?_⟩
    · exact (forall_mem_elements_iff hatoms).2 h.known
    · rw [Reading.advisories_eq_nil_iff, hatoms]
      intro a ha
      have hstrict := h.strict _ (Piece.mem_atomsOf.1 ha)
      exact (Piece.isStrict_atom.1 hstrict).2
    · rw [Reading.elements, Reading.subjects, hatoms]

/-- An accepted line is admitted, with the pieces that the reader cut its
condition into. -/
theorem exists_admits_of_checkLine (h : layout.checkLine line = .ok es) :
    ∃ action condition ps, layout.Admits line action condition ps := by
  obtain ⟨condition, hscreen, hjudge⟩ := checkLine_eq_ok_iff_judge.1 h
  obtain ⟨⟨action, hwritten⟩, hscreened⟩ := Statement.screen_eq_ok_iff.1 hscreen
  obtain ⟨⟨c, hc⟩, hknown, hadvisories, -⟩ := judge_eq_ok_iff.1 hjudge
  obtain ⟨ps, l, hstrict, hrun, hout, htokens, hatoms⟩ :=
    hscreened.exists_strict_run hc hadvisories
  exact ⟨action, condition, ps,
    { written := hwritten
      lexemes := fun l hl => (Lexeme.isAllowed_iff_of_mem hl).1 (hscreened.allowed l hl)
      tokens := htokens
      strict := hstrict
      nested := Levels.exists_run_outermost_iff.1 ⟨l, hrun, hout⟩
      known := (forall_mem_elements_iff hatoms).1 hknown }⟩

/-- **The language of the check.** A layout accepts exactly the lines that
it admits, and the answer is the subjects of their atoms, each once and in
the order of first occurrence. -/
theorem checkLine_eq_ok_iff (layout : Layout) (line : String) (es : Elements) :
    layout.checkLine line = .ok es ↔
      ∃ (action : Action) (condition : String) (ps : List Piece),
        layout.Admits line action condition ps ∧
          es.names = ((Piece.atomsOf ps).map Atom.subject).eraseDups := by
  constructor
  · intro h
    obtain ⟨action, condition, ps, hadmits⟩ := exists_admits_of_checkLine h
    refine ⟨action, condition, ps, hadmits, ?_⟩
    rw [hadmits.checkLine_eq] at h
    rw [← Except.ok.inj h, Elements.names_ofList]
  · rintro ⟨action, condition, ps, hadmits, hnames⟩
    rw [hadmits.checkLine_eq]
    refine congrArg Except.ok (Elements.ext ?_)
    rw [Elements.names_ofList, hnames]

end Layout

end DialogRules
