import DialogRules.Proofs.Condition.Leaves
import DialogRules.Proofs.Condition.RoundTrip
import DialogRules.Proofs.Layout.Language

/-!
# What is kept of an accepted line

The text of a condition that was read consists of the tokens of its
leaves and of parentheses, which need not be those of the line. In an
accepted line a token that is no parenthesis and belongs to no leaf is a
comparison outside the atoms: the check lets it pass wherever it stands,
and the reader passes over it. Nothing else is lost, and without such
comparisons nothing is (`tokens_of_checkLine`).
-/

namespace DialogRules

/-! ## Parentheses and lone comparisons -/

namespace Token

/-- Whether the token is a parenthesis. -/
def isParen (t : Token) : Bool := t = openParen || t = closeParen

/-- The tokens among some that are no parentheses. -/
def withoutParens (ts : List Token) : List Token := ts.filter fun t => !t.isParen

/-- What is left of some tokens without the comparisons that stand outside
the atoms. A word outside an atom starts one, with the next two tokens,
whatever they are. -/
def withoutLone : List Token → List Token
  | [] => []
  | token :: rest =>
    match token.kind with
    | .compare _ => withoutLone rest
    | .word _ =>
      match rest with
      | operator :: predicate :: rest => token :: operator :: predicate :: withoutLone rest
      | [] => [token]
      | [operator] => [token, operator]
    | _ => token :: withoutLone rest

@[simp] theorem withoutParens_append (ts us : List Token) :
    withoutParens (ts ++ us) = withoutParens ts ++ withoutParens us :=
  List.filter_append ..

theorem isParen_eq_false {t : Token} (h : Text.HasNoParens t.text.toList) :
    t.isParen = false := by
  have hopen : t ≠ openParen := by
    rintro rfl
    exact absurd h (by decide)
  have hclose : t ≠ closeParen := by
    rintro rfl
    exact absurd h (by decide)
  simp [isParen, hopen, hclose]

theorem isParen_of_kind_compare {t : Token} {op : CompareOp} (h : t.kind = .compare op) :
    t.isParen = false := by
  rw [eq_of_kind_compare h]
  cases op <;> decide

theorem withoutLone_of_kind_compare {t : Token} {op : CompareOp} (h : t.kind = .compare op)
    (ts : List Token) : withoutLone (t :: ts) = withoutLone ts := by
  rw [withoutLone.eq_def]
  simp [h]

theorem withoutLone_of_isWord {t o p : Token} (h : t.isWord = true) (ts : List Token) :
    withoutLone (t :: o :: p :: ts) = t :: o :: p :: withoutLone ts := by
  obtain ⟨w, hw⟩ := exists_kind_eq_word_iff.2 h
  simp [withoutLone, hw]

theorem withoutLone_sublist (ts : List Token) : (withoutLone ts).Sublist ts := by
  fun_induction withoutLone ts with
  | case1 => exact .slnil
  | case2 t rest op hk ih => exact ih.cons t
  | case3 t w hk o p rest ih => exact ((ih.cons_cons p).cons_cons o).cons_cons t
  | case4 t w hk => exact .refl _
  | case5 t w hk o => exact .refl _
  | case6 t rest _ _ ih => exact ih.cons_cons t

/-- A comparison is no parenthesis, so the parentheses stay. -/
theorem filter_isParen_withoutLone (ts : List Token) :
    (withoutLone ts).filter isParen = ts.filter isParen := by
  fun_induction withoutLone ts with
  | case1 | case4 | case5 => rfl
  | case2 t rest op hk ih => rw [ih, List.filter_cons_of_neg (by simp [isParen_of_kind_compare hk])]
  | case3 t w hk o p rest ih => simp only [List.filter_cons, ih]
  | case6 t rest _ _ ih => simp only [List.filter_cons, ih]

/-- **Lone comparisons are seen without the parentheses**: leaving them
out changes nothing there only if there are none. -/
theorem withoutParens_withoutLone_eq_iff {ts : List Token} :
    withoutParens (withoutLone ts) = withoutParens ts ↔ withoutLone ts = ts := by
  refine ⟨fun h => ?_, fun h => by rw [h]⟩
  -- what is left out would be missed in the length, since all parentheses stay
  refine (withoutLone_sublist ts).eq_of_length ?_
  have hcount (us : List Token) :
      us.length = (us.filter isParen).length + (withoutParens us).length := by
    have hsplit := us.length_eq_countP_add_countP isParen
    simpa [withoutParens, List.countP_eq_length_filter] using hsplit
  rw [hcount ts, hcount (withoutLone ts), filter_isParen_withoutLone, h]

end Token

/-! ## The tokens of leaves -/

/-- The tokens of a leaf. -/
def Leaf.tokens : Leaf → List Token
  | atom a => Piece.tokens (.atom a)
  | connective c => Piece.tokens (.connective c)

/-- The tokens of a well-formed atom are no parentheses. -/
theorem Atom.withoutParens_tokens {a : Atom} (hword : Text.isWord a.subject = true)
    (hformed : a.isWellFormed = true) :
    Token.withoutParens (Piece.tokens (.atom a)) = Piece.tokens (.atom a) := by
  obtain ⟨hoperator, hpredicate⟩ := hasNoParens_of_isWellFormed hformed
  have hs : Token.isParen ⟨a.subject⟩ = false :=
    Token.isParen_eq_false (Text.hasNoParens_of_isWord hword)
  have ho : Token.isParen ⟨a.operator⟩ = false := Token.isParen_eq_false hoperator
  have hp : Token.isParen ⟨a.predicate⟩ = false := Token.isParen_eq_false hpredicate
  simp [Token.withoutParens, Piece.tokens, hs, ho, hp]

namespace Piece

/-- Of a piece that keeps to the vocabularies the leaf is kept, and nothing
else. -/
theorem kept_tokens_append {p : Piece} (hp : p.IsStrict) (ts : List Token) :
    Token.withoutParens (Token.withoutLone (p.tokens ++ ts)) =
      p.leaf?.toList.flatMap Leaf.tokens ++ Token.withoutParens (Token.withoutLone ts) := by
  cases p with
  | openParen => rfl
  | closeParen => rfl
  | connective c => cases c <;> rfl
  | idle t =>
    obtain ⟨op, hk⟩ := isStrict_idle.1 hp
    simp [tokens, leaf?, Token.withoutLone_of_kind_compare hk]
  | atom a =>
    obtain ⟨hword, hformed⟩ := isStrict_atom.1 hp
    have hatom : Token.isWord ⟨a.subject⟩ = true := hword
    have hkept : Token.withoutLone (tokens (.atom a) ++ ts) =
        tokens (.atom a) ++ Token.withoutLone ts := Token.withoutLone_of_isWord hatom ts
    rw [hkept, Token.withoutParens_append, Atom.withoutParens_tokens hword hformed]
    simp [leaf?, Leaf.tokens]

/-- **What is kept of pieces is their leaves.** -/
theorem kept_tokensOf {ps : List Piece} (hps : ∀ p ∈ ps, p.IsStrict) :
    Token.withoutParens (Token.withoutLone (tokensOf ps)) =
      (leavesOf ps).flatMap Leaf.tokens := by
  induction ps with
  | nil => rfl
  | cons p ps ih =>
    obtain ⟨hp, hps⟩ := List.forall_mem_cons.1 hps
    rw [tokensOf_cons, kept_tokens_append hp, ih hps, leavesOf_cons, List.flatMap_append]

/-- Pieces of which none is passed over have no lone comparison. -/
theorem withoutLone_tokensOf {ps : List Piece} (hps : ∀ p ∈ ps, p.IsProper)
    (hidle : ∀ t, .idle t ∉ ps) : Token.withoutLone (tokensOf ps) = tokensOf ps := by
  induction ps with
  | nil => rfl
  | cons p ps ih =>
    obtain ⟨hp, hps⟩ := List.forall_mem_cons.1 hps
    have ih := ih hps fun t ht => hidle t (List.mem_cons_of_mem _ ht)
    rw [tokensOf_cons]
    cases p with
    | openParen => exact congrArg (Token.openParen :: ·) ih
    | closeParen => exact congrArg (Token.closeParen :: ·) ih
    | connective c => cases c <;> exact congrArg (_ :: ·) ih
    | atom a =>
      have hword : Token.isWord ⟨a.subject⟩ = true := hp
      exact (Token.withoutLone_of_isWord hword _).trans (congrArg (tokens (.atom a) ++ ·) ih)
    | idle t => exact absurd List.mem_cons_self (hidle t)

end Piece

namespace Condition

/-- The leaves of a normal condition are those of its pieces. -/
theorem leavesOf_pieces {c : Condition} (h : c.Normal) : Piece.leavesOf c.pieces = c.leaves := by
  obtain ⟨terms, hrun, hterms⟩ := run_pieces c [] h.unwrapped (by simpa using h.shallow)
  have hclose : Levels.close ⟨[], terms⟩ = c := hterms
  have hleaves := Levels.Run.leaves_close hrun
  rw [hclose] at hleaves
  exact hleaves.symm

/-- **The text of a condition is its leaves** and parentheses. -/
theorem withoutParens_render {c : Condition} (h : c.Normal)
    (hformed : ∀ a ∈ c.atoms, a.isWellFormed = true) :
    Token.withoutParens (Token.ofString c.render) = c.leaves.flatMap Leaf.tokens := by
  have htokens : Token.ofString c.render = Piece.tokensOf c.pieces :=
    (spells_render c h.spelled).ofString_eq
  have hnone := Piece.withoutLone_tokensOf (isProper_of_mem_pieces h.spelled)
    c.not_idle_of_mem_pieces
  rw [htokens, ← hnone, Piece.kept_tokensOf (isStrict_of_mem_pieces h.spelled hformed),
    leavesOf_pieces h]

end Condition

/-! ## Accepted lines -/

namespace Layout

variable {layout : Layout} {line : String} {es : Elements}

/-- **What is kept of an accepted line.** The condition is read, and
without its lone comparisons it has the tokens of the text of what was
read, parentheses aside. With them it has those tokens only if it has no
lone comparison. -/
theorem tokens_of_checkLine (h : layout.checkLine line = .ok es) :
    ∃ s c, Statement.ofLine? line = some s ∧ (Condition.read s.condition).result = .ok c ∧
      Token.withoutParens (Token.withoutLone (Token.ofString s.condition)) =
        Token.withoutParens (Token.ofString c.render) ∧
      (Token.withoutParens (Token.ofString s.condition) =
          Token.withoutParens (Token.ofString c.render) ↔
        Token.withoutLone (Token.ofString s.condition) = Token.ofString s.condition) := by
  obtain ⟨action, condition, ps, hadmits⟩ := exists_admits_of_checkLine h
  obtain ⟨l, hrun, -, hread⟩ := hadmits.read_eq
  have hresult : (Condition.read condition).result = .ok l.close := by rw [hread]
  have hatoms : l.close.atoms = Piece.atomsOf ps :=
    (Condition.atoms_of_result hresult).trans (congrArg Reading.atoms hread)
  have hformed : ∀ a ∈ l.close.atoms, a.isWellFormed = true := by
    intro a ha
    have hmem : .atom a ∈ ps := Piece.mem_atomsOf.1 (hatoms ▸ ha)
    exact (Piece.isStrict_atom.1 (hadmits.strict _ hmem)).2
  have hkept : Token.withoutParens (Token.withoutLone (Token.ofString condition)) =
      Token.withoutParens (Token.ofString l.close.render) := by
    rw [hadmits.tokens, Piece.kept_tokensOf hadmits.strict, ← hrun.leaves_close,
      Condition.withoutParens_render (Condition.normal_of_result hresult) hformed]
  refine ⟨⟨action.text, condition⟩, l.close, Statement.ofLine?_eq_some_iff.2 hadmits.written,
    hresult, hkept, ?_⟩
  rw [← hkept, eq_comm]
  exact Token.withoutParens_withoutLone_eq_iff

/-- One comparison stands behind the last atom and one between two
connectives: both are lost, and the pair of parentheses around everything
too. -/
theorem tokens_of_checkLine_lone :
    (ofList ["A", "B"]).checkLine "show if (A == 1 & >= & (B != 2) ==);" =
        .ok (Elements.ofList ["A", "B"]) ∧
      ∃ s c, Statement.ofLine? "show if (A == 1 & >= & (B != 2) ==);" = some s ∧
        (Condition.read s.condition).result = .ok c ∧
        Token.withoutParens (Token.withoutLone (Token.ofString s.condition)) =
          Token.withoutParens (Token.ofString c.render) ∧
        (Token.withoutParens (Token.ofString s.condition) =
            Token.withoutParens (Token.ofString c.render) ↔
          Token.withoutLone (Token.ofString s.condition) = Token.ofString s.condition) := by
  have hcheck : (ofList ["A", "B"]).checkLine "show if (A == 1 & >= & (B != 2) ==);" =
      .ok (Elements.ofList ["A", "B"]) := by
    decide +kernel
  exact ⟨hcheck, tokens_of_checkLine hcheck⟩

/-- **A comparison is lost** from an accepted line: it stands where an
operand should, and the text of what was read ends before it. -/
theorem not_tokens_lone_compare :
    (ofList ["A"]).checkLine "show if A == enabled & >=;" = .ok (Elements.ofList ["A"]) ∧
      (Statement.ofLine? "show if A == enabled & >=;").map Statement.condition =
        some "A == enabled & >=" ∧
      (Condition.read "A == enabled & >=").result =
        .ok (.sequence [.atom ⟨"A", "==", "enabled"⟩, .connective .and]) ∧
      Token.withoutParens (Token.ofString "A == enabled & >=") ≠
        Token.withoutParens (Token.ofString
          (Condition.render (.sequence [.atom ⟨"A", "==", "enabled"⟩, .connective .and]))) := by
  decide +kernel

end Layout

end DialogRules
