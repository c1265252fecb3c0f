import DialogRules.Proofs.Condition.Nesting
import DialogRules.Proofs.Condition.Survey
import DialogRules.Proofs.Lexeme

/-!
# Conditions in parentheses

A pair of parentheses around a whole condition is read as a group that is
the only term of its level, and such a group is unwrapped. Inside it every
level stands one deeper, and the closing parenthesis closes whichever level
is innermost when it comes, which the end of the tokens would have closed
as well. So nothing changes, unless there is no room for one more level
(`Condition.read_parens`).
-/

namespace DialogRules

/-- Parentheses around a text are tokens of their own, before and behind
those of the text. -/
theorem Token.ofString_parens (s : String) :
    ofString ("(" ++ s ++ ")") = openParen :: (ofString s ++ [closeParen]) := by
  have hchars : ("(" ++ s ++ ")").toList = "(".toList ++ (s.toList ++ ')' :: []) := by simp
  have hclose : Lexeme.ofChars [')'] = [.token closeParen] := by decide +kernel
  rw [ofString, Lexeme.ofString, hchars, Lexeme.ofChars_symbol_append (by decide),
    Lexeme.ofChars_append (by decide), hclose]
  simp [Lexeme.token?, ofString, Lexeme.ofString, openParen]

namespace Levels

variable {l l' : Levels} {ps : List Piece}

/-- The levels inside one more group, which is outermost. -/
def inside (l : Levels) : Levels := ⟨l.outer ++ [[]], l.terms⟩

/-- A group that holds everything stands for what is in it. -/
theorem close_inside (l : Levels) : l.inside.close = l.close := by
  obtain ⟨outer, terms⟩ := l
  simp only [inside, close]
  induction outer generalizing terms with
  | nil => rfl
  | cons level outer ih => exact ih (.group (Condition.ofTerms terms.reverse) :: level)

/-- Closing a level early leaves the same condition. -/
theorem Step.close_eq (h : Step l .closeParen l') : l'.close = l.close := by
  cases h
  rfl

/-- Inside a group there is the same step, if there is room for it. -/
theorem Step.inside {p : Piece} (h : Step l p l') (hroom : l'.outer.length < maxNesting) :
    Step l.inside p l'.inside := by
  cases h with
  | openParen hlt =>
    refine .openParen ?_
    rw [Levels.inside, List.length_append]
    exact hroom
  | closeParen => exact .closeParen
  | connective => exact .connective
  | atom => exact .atom
  | idle => exact .idle

/-- Inside a group that is closed at last, there is a step at a closing
parenthesis. -/
theorem exists_step_closeParen_inside (l : Levels) : ∃ l', Step l.inside .closeParen l' :=
  exists_step nofun fun _ => by simp [inside]

end Levels

namespace Survey

open Levels (Step Run)

variable {l l' : Levels} {ps : List Piece}

/-- The parentheses that are open at the start count. -/
theorem le_deepest (depth : Nat) (ts : List Token) : depth ≤ (ofTokens depth ts).deepest := by
  fun_cases ofTokens depth ts with
  | case1 | case3 | case4 | case7 | case8 => exact Nat.le_refl _
  | case2 | case5 | case6 | case9 | case10 | case11 | case12 => exact Nat.le_max_left _ _

/-- What a survey finds at its deepest, before or behind a step. -/
theorem deepest_step {p : Piece} (hp : p.IsProper) (h : Step l p l') (ts : List Token) :
    (ofTokens l.outer.length (p.tokens ++ ts)).deepest =
      max l.outer.length (ofTokens l'.outer.length ts).deepest := by
  rw [ofTokens_step hp h]
  rfl

/-- **Where the reader does not go deepest**, the same run leads through a
group. -/
theorem run_inside (hps : ∀ p ∈ ps, p.IsProper) (h : Run l ps l') {ts : List Token}
    (hdeepest : (ofTokens l.outer.length (Piece.tokensOf ps ++ ts)).deepest < maxNesting) :
    Run l.inside ps l'.inside := by
  induction h with
  | nil => exact .nil
  | cons step _ ih =>
    obtain ⟨hp, hps⟩ := List.forall_mem_cons.1 hps
    rw [Piece.tokensOf_cons, List.append_assoc, deepest_step hp step] at hdeepest
    have hrest := (Nat.max_lt.1 hdeepest).2
    exact .cons (step.inside (Nat.lt_of_le_of_lt (le_deepest _ _) hrest)) (ih hps hrest)

/-- **Where it does**, it fails inside a group, at the parenthesis that
would open the deepest level. -/
theorem read_inside_of_deepest (hps : ∀ p ∈ ps, p.IsProper) (h : Run l ps l')
    (hl : l.outer.length < maxNesting)
    (hdeepest : maxNesting ≤ (ofTokens l.outer.length (Piece.tokensOf ps)).deepest)
    (ts : List Token) :
    (l.inside.read (Piece.tokensOf ps ++ ts)).result = .error (.tooDeep maxNesting) := by
  induction h with
  | nil =>
    rw [Piece.tokensOf_nil, ofTokens] at hdeepest
    exact absurd hl (Nat.not_lt.2 hdeepest)
  | @cons l m l' p ps step _ ih =>
    obtain ⟨hp, hps⟩ := List.forall_mem_cons.1 hps
    rw [Piece.tokensOf_cons, deepest_step hp step] at hdeepest
    rw [Piece.tokensOf_cons, List.append_assoc]
    rcases Nat.lt_or_ge m.outer.length maxNesting with hm | hm
    · have hrest : maxNesting ≤ (ofTokens m.outer.length (Piece.tokensOf ps)).deepest := by omega
      rw [Levels.read_step hp (step.inside hm)]
      exact ih hps hm hrest
    · -- only an opening parenthesis leads so deep, and inside there is no room for it
      cases step with
      | openParen hlt =>
        have hfull : maxNesting ≤ l.inside.outer.length := by
          rw [Levels.inside, List.length_append]
          exact hm
        have hread : l.inside.read (Token.openParen :: (Piece.tokensOf ps ++ ts)) =
            ⟨.error (.tooDeep maxNesting), [], Token.openParen :: (Piece.tokensOf ps ++ ts)⟩ :=
          Levels.read_halt (.tooDeep hfull)
        exact congrArg Reading.result hread
      | closeParen =>
        simp only [List.length_cons] at hl
        simp only at hm
        omega
      | connective => exact absurd hl (Nat.not_lt.2 hm)
      | atom => exact absurd hl (Nat.not_lt.2 hm)
      | idle => exact absurd hl (Nat.not_lt.2 hm)

end Survey

namespace Condition

open Levels (Run)

/-- Reading a condition in parentheses is reading on inside a group. -/
theorem read_parens_eq (s : String) :
    read ("(" ++ s ++ ")") =
      Levels.initial.inside.read (Token.ofString s ++ [Token.closeParen]) := by
  rw [read, Token.ofString_parens]
  exact Levels.read_step (l := Levels.initial) (p := .openParen) trivial (.openParen (by decide)) _

/-- **Parentheses around a condition change nothing.** If a condition can be
read to its end, then it is read the same in parentheses, with the same
elements and advisories and to the end too, as long as it does not go as
deep as a reading may. If it does, there is no room for one more pair. -/
theorem read_parens {s : String} {c : Condition} (h : (read s).result = .ok c)
    (hrest : (read s).rest = []) :
    ((Survey.ofTokens 0 (Token.ofString s)).deepest < maxNesting →
        read ("(" ++ s ++ ")") = read s) ∧
      (maxNesting ≤ (Survey.ofTokens 0 (Token.ofString s)).deepest →
        (read ("(" ++ s ++ ")")).result = .error (.tooDeep maxNesting)) := by
  obtain ⟨ps, l, rest, r, hps, hrun, hhalt, htokens, hread⟩ :=
    exists_run_ofTokens (Token.ofString s)
  rw [read, hread] at h hrest
  obtain rfl : r = .ok c := h
  obtain rfl : rest = [] := hrest
  rw [List.append_nil] at htokens
  rw [read_parens_eq, read, hread, htokens]
  constructor
  · intro hdeepest
    rw [← List.append_nil (Piece.tokensOf ps)] at hdeepest
    have hinside : Run Levels.initial.inside ps l.inside := Survey.run_inside hps hrun hdeepest
    obtain ⟨m, hclose⟩ := l.exists_step_closeParen_inside
    have hall := hinside.append (.single hclose)
    have hproper : ∀ p ∈ ps ++ [.closeParen], p.IsProper :=
      List.forall_mem_append.2 ⟨hps, List.forall_mem_singleton.2 trivial⟩
    have hc : m.close = c := by
      rw [hclose.close_eq, Levels.close_inside, hhalt.eq_close]
    have hboth := Levels.read_eq hproper hall .done
    rw [List.append_nil, Piece.tokensOf_append, Piece.atomsOf_append, hc] at hboth
    simpa [Piece.tokens, Piece.atom?] using hboth
  · intro hdeepest
    exact Survey.read_inside_of_deepest hps hrun (by decide) hdeepest _

/-- Two groups are left open here, so the parenthesis that is put behind
closes the inner of them; and with sixty-four the one that is put before is
too many. -/
theorem read_parens_unclosed :
    read "((A == ( & (B >= 1 |)" = read "(A == ( & (B >= 1 |" ∧
      (read "(A == ( & (B >= 1 |").result = .ok (.sequence [.atom ⟨"A", "==", "("⟩,
        .connective .and, .group (.sequence [.atom ⟨"B", ">=", "1"⟩, .connective .or])]) ∧
      (read ("(" ++ String.ofList (List.replicate 64 '(') ++ ")")).result =
        .error (.tooDeep maxNesting) := by
  have hresult : (read "(A == ( & (B >= 1 |").result = .ok (.sequence [.atom ⟨"A", "==", "("⟩,
      .connective .and, .group (.sequence [.atom ⟨"B", ">=", "1"⟩, .connective .or])]) := by
    decide +kernel
  have hdeep : (read (String.ofList (List.replicate 64 '('))).result = .ok (.sequence []) := by
    decide +kernel
  have hsame := (read_parens hresult (by decide +kernel)).1 (by decide +kernel)
  have hfails := (read_parens hdeep (by decide +kernel)).2 (by decide +kernel)
  exact ⟨hsame, hresult, hfails⟩

end Condition

end DialogRules
