import DialogRules.Proofs.Piece
import Mathlib.Control.Monad.Basic

/-!
# Reading as a run over pieces

What reading a condition has under way is the level it is in and the
suspended levels around it. A piece moves the levels by a step (`Step`),
and a run is one step after another. Every reading is a run as far as one
goes and then a halt (`exists_run`): at the end of the tokens, at a
closing parenthesis with nothing to close, at an opening one too many, or
at a word that is cut short (`Halt`). What a step preserves a run
preserves, so facts about readings are proved by looking at single steps.
-/

namespace DialogRules

-- results are compared by the library's instance for `Except`
deriving instance DecidableEq for Reading

namespace Reading

/-- The reading with some atoms completed before everything else in it. -/
def afterAll (as : List Atom) (r : Reading) : Reading :=
  { r with atoms := as ++ r.atoms }

@[simp] theorem afterAll_nil (r : Reading) : r.afterAll [] = r := rfl

theorem afterAll_append (as bs : List Atom) (r : Reading) :
    r.afterAll (as ++ bs) = (r.afterAll bs).afterAll as := by
  simp [afterAll]

end Reading

/-- The levels of a condition that is being read. Terms stand newest
first, and suspended levels innermost first. -/
structure Levels where
  /-- The suspended levels. -/
  outer : List (List Term)
  /-- The terms of the level under way. -/
  terms : List Term

namespace Levels

/-- The levels before anything is read. -/
def initial : Levels := ⟨[], []⟩

/-- The levels with one more term. -/
def push (l : Levels) (t : Term) : Levels := ⟨l.outer, t :: l.terms⟩

/-- The condition that is left when every level is closed. -/
def close (l : Levels) : Condition := Condition.closeAll l.terms l.outer

/-- Reading on from some levels. -/
def read (l : Levels) (ts : List Token) : Reading := Condition.readFrom l.outer l.terms ts

/-- How a piece moves the levels. -/
inductive Step : Levels → Piece → Levels → Prop
  | openParen {l : Levels} (h : l.outer.length < maxNesting) :
      Step l .openParen ⟨l.terms :: l.outer, []⟩
  | closeParen {terms level : List Term} {outer : List (List Term)} :
      Step ⟨level :: outer, terms⟩ .closeParen
        ⟨outer, .group (Condition.ofTerms terms.reverse) :: level⟩
  | connective {l : Levels} {c : Connective} : Step l (.connective c) (l.push (.connective c))
  | atom {l : Levels} {a : Atom} : Step l (.atom a) (l.push (.atom a))
  | idle {l : Levels} {t : Token} : Step l (.idle t) l

/-- How pieces move the levels, one after another. -/
inductive Run : Levels → List Piece → Levels → Prop
  | nil {l : Levels} : Run l [] l
  | cons {l l' l'' : Levels} {p : Piece} {ps : List Piece} (step : Step l p l')
      (run : Run l' ps l'') : Run l (p :: ps) l''

/-- Where the reading ends, and with what result: nothing is left, or
there is no step at what is left. -/
inductive Halt (l : Levels) : List Token → Except ParseError Condition → Prop
  | done : Halt l [] (.ok l.close)
  | stray {ts : List Token} (h : l.outer = []) : Halt l (Token.closeParen :: ts) (.ok l.close)
  | tooDeep {ts : List Token} (h : maxNesting ≤ l.outer.length) :
      Halt l (Token.openParen :: ts) (.error (.tooDeep maxNesting))
  | truncated {t : Token} {ts : List Token} (hword : t.isWord = true) (hshort : ts.length < 2) :
      Halt l (t :: ts) (.error (.truncated ((t :: ts).map Token.text)))

variable {l l' l'' : Levels}

namespace Run

theorem single {p : Piece} (h : Step l p l') : Run l [p] l' := .cons h .nil

theorem append {ps qs : List Piece} (h : Run l ps l') (h' : Run l' qs l'') :
    Run l (ps ++ qs) l'' := by
  induction h with
  | nil => exact h'
  | cons step _ ih => exact .cons step (ih h')

/-- **What a step preserves, a run preserves.** -/
theorem preserves {Inv : Levels → Prop} {ps : List Piece} (h : Run l ps l')
    (step : ∀ {m m' : Levels} {p : Piece}, p ∈ ps → Step m p m' → Inv m → Inv m')
    (hl : Inv l) : Inv l' := by
  induction h with
  | nil => exact hl
  | cons hs _ ih =>
    exact ih (fun hp => step (List.mem_cons_of_mem _ hp)) (step List.mem_cons_self hs hl)

end Run

/-! ## Reading along a run -/

/-- Reading takes a piece as a step does. -/
theorem read_step {p : Piece} (hp : p.IsProper) (h : Step l p l') (ts : List Token) :
    l.read (p.tokens ++ ts) = (l'.read ts).afterAll p.atom?.toList := by
  cases h with
  | openParen hlt =>
    rw [read, Piece.tokens, List.singleton_append, Condition.readFrom.eq_def]
    simp [hlt, read, Piece.atom?]
  | closeParen =>
    rw [read, Piece.tokens, List.singleton_append, Condition.readFrom.eq_def]
    simp [read, Piece.atom?]
  | connective =>
    rw [read, Piece.tokens, List.singleton_append, Condition.readFrom.eq_def]
    simp [read, push, Piece.atom?]
  | @atom l a =>
    have hword : Token.isWord ⟨a.subject⟩ = true := hp
    rw [read, Piece.tokens, List.cons_append, Condition.readFrom_of_isWord hword]
    rfl
  | @idle l t =>
    rw [read, Piece.tokens, List.singleton_append, Condition.readFrom.eq_def]
    rcases hp with ⟨op, hk⟩ | hk | hk <;> simp [hk, read, Piece.atom?]

/-- **Reading follows the run**, and completes its atoms on the way. -/
theorem read_run {ps : List Piece} (hps : ∀ p ∈ ps, p.IsProper) (h : Run l ps l')
    (ts : List Token) :
    l.read (Piece.tokensOf ps ++ ts) = (l'.read ts).afterAll (Piece.atomsOf ps) := by
  induction h with
  | nil => rfl
  | cons step _ ih =>
    obtain ⟨hp, hps⟩ := List.forall_mem_cons.1 hps
    rw [Piece.tokensOf_cons, List.append_assoc, read_step hp step, ih hps, Piece.atomsOf_cons,
      Reading.afterAll_append]

/-- Where there is a halt the reading ends, with everything else unread. -/
theorem read_halt {ts : List Token} {r : Except ParseError Condition} (h : Halt l ts r) :
    l.read ts = ⟨r, [], ts⟩ := by
  cases h with
  | done => rfl
  | stray hout =>
    obtain ⟨outer, terms⟩ := l
    simp only at hout
    subst hout
    rw [read, Condition.readFrom.eq_def]
    simp [close, Condition.closeAll]
  | tooDeep hdeep =>
    rw [read, Condition.readFrom.eq_def]
    simp [Nat.not_lt.2 hdeep]
  | truncated hword hshort =>
    rw [read, Condition.readFrom_of_isWord hword]
    rename_i ts
    rcases ts with _ | ⟨o, _ | ⟨p, ts⟩⟩
    · rfl
    · rfl
    · simp only [List.length_cons] at hshort
      omega

/-- A piece moves the levels or ends the reading. -/
theorem step_or_halt (l : Levels) (p : Piece) (ts : List Token) :
    (∃ l', Step l p l') ∨ ∃ r, Halt l (p.tokens ++ ts) r := by
  cases p with
  | openParen =>
    rcases Nat.lt_or_ge l.outer.length maxNesting with hlt | hge
    · exact .inl ⟨_, .openParen hlt⟩
    · exact .inr ⟨_, .tooDeep hge⟩
  | closeParen =>
    obtain ⟨_ | ⟨level, outer⟩, terms⟩ := l
    · exact .inr ⟨_, .stray rfl⟩
    · exact .inl ⟨_, .closeParen⟩
  | connective c => exact .inl ⟨_, .connective⟩
  | atom a => exact .inl ⟨_, .atom⟩
  | idle t => exact .inl ⟨_, .idle⟩

/-- **Every reading is a run and then a halt.** -/
theorem exists_run (l : Levels) (ts : List Token) :
    ∃ ps l' rest r, (∀ p ∈ ps, p.IsProper) ∧ Run l ps l' ∧ ts = Piece.tokensOf ps ++ rest ∧
      Halt l' rest r := by
  -- a step takes at least one token, so the induction is on how many there are
  induction hn : ts.length using Nat.strongRecOn generalizing l ts with
  | ind n ih =>
    rcases ts with _ | ⟨t, ts⟩
    · exact ⟨[], l, [], _, by simp, .nil, rfl, .done⟩
    · rcases Piece.exists_front t ts with ⟨p, rest, hp, htokens⟩ | ⟨hword, hshort⟩
      · rcases step_or_halt l p rest with ⟨m, hstep⟩ | ⟨r, hhalt⟩
        · have hlt : rest.length < n := by
            rw [← hn, htokens, List.length_append]
            have : 0 < p.tokens.length := by cases p <;> simp [Piece.tokens]
            omega
          obtain ⟨ps, l', rest', r, hps, hrun, hrest, hhalt⟩ := ih _ hlt m rest rfl
          refine ⟨p :: ps, l', rest', r, List.forall_mem_cons.2 ⟨hp, hps⟩, .cons hstep hrun, ?_,
            hhalt⟩
          rw [htokens, hrest, Piece.tokensOf_cons, List.append_assoc]
        · exact ⟨[], l, t :: ts, r, by simp, .nil, rfl, htokens ▸ hhalt⟩
      · exact ⟨[], l, t :: ts, _, by simp, .nil, rfl, .truncated hword hshort⟩

/-- So what reading leaves behind is read off the run and the halt. -/
theorem read_eq {ps : List Piece} {rest : List Token} {r : Except ParseError Condition}
    (hps : ∀ p ∈ ps, p.IsProper) (hrun : Run l ps l') (hhalt : Halt l' rest r) :
    l.read (Piece.tokensOf ps ++ rest) = ⟨r, Piece.atomsOf ps, rest⟩ := by
  rw [read_run hps hrun, read_halt hhalt, Reading.afterAll, List.append_nil]

end Levels

/-- **The anatomy of a reading**: the pieces it took, the levels they led
to and the halt there give its result, its atoms and its rest. -/
theorem Condition.exists_run_ofTokens (ts : List Token) :
    ∃ ps l rest r, (∀ p ∈ ps, p.IsProper) ∧ Levels.Run Levels.initial ps l ∧
      Levels.Halt l rest r ∧ ts = Piece.tokensOf ps ++ rest ∧
      ofTokens ts = ⟨r, Piece.atomsOf ps, rest⟩ := by
  obtain ⟨ps, l, rest, r, hps, hrun, rfl, hhalt⟩ := Levels.exists_run Levels.initial ts
  exact ⟨ps, l, rest, r, hps, hrun, hhalt, rfl, Levels.read_eq hps hrun hhalt⟩

end DialogRules
