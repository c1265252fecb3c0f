import DialogRules.Proofs.Condition.Descent

/-!
# Where a reading fails

A survey goes over the tokens of a condition once and builds nothing. It
counts the parentheses that are open, takes three tokens at every word and
stops at what the reader cannot take: an opening parenthesis too many, or
a word that is cut short. So it tells of a reading whether and why it
fails, what it completed before, and which tokens it leaves
(`Condition.descend_fails_iff`).
-/

namespace DialogRules

/-- What a reading cannot get over. -/
inductive Obstacle where
  /-- An opening parenthesis where as many are open as may be. -/
  | openParen
  /-- A word with fewer than two tokens behind it. -/
  | word
deriving DecidableEq

/-- What a flat look over some tokens tells. -/
structure Survey where
  /-- The atoms that were passed, in order. -/
  atoms : List Atom
  /-- The greatest number of parentheses that were open at once. -/
  deepest : Nat
  /-- What the survey stopped at, if it is an obstacle. -/
  obstacle : Option Obstacle
  /-- The tokens from there on. -/
  rest : List Token
deriving DecidableEq

namespace Survey

/-- The survey with some atoms passed before everything else in it, where
`depth` parentheses were open. -/
def after (as : List Atom) (depth : Nat) (s : Survey) : Survey :=
  { s with atoms := as ++ s.atoms, deepest := max depth s.deepest }

/-- Surveys some tokens when `depth` parentheses are open before them. A
word takes the next two tokens, whatever they are. The survey ends at a
closing parenthesis when none is open, and at the first obstacle. -/
def ofTokens : (depth : Nat) → List Token → Survey
  | depth, [] => ⟨[], depth, none, []⟩
  | depth, token :: rest =>
    match token.kind with
    | .openParen =>
      if depth < maxNesting then (ofTokens (depth + 1) rest).after [] depth
      else ⟨[], depth, some .openParen, token :: rest⟩
    | .closeParen =>
      match depth with
      | 0 => ⟨[], 0, none, token :: rest⟩
      | depth + 1 => (ofTokens depth rest).after [] (depth + 1)
    | .word _ =>
      match rest with
      | operator :: predicate :: rest =>
        (ofTokens depth rest).after [.ofTokens token operator predicate] depth
      | [] => ⟨[], depth, some .word, [token]⟩
      | [operator] => ⟨[], depth, some .word, [token, operator]⟩
    | .connective _ | .compare _ | .terminator | .other => (ofTokens depth rest).after [] depth

theorem ofTokens_of_isWord {depth : Nat} {t o p : Token} (h : t.isWord = true) (ts : List Token) :
    ofTokens depth (t :: o :: p :: ts) =
      (ofTokens depth ts).after [.ofTokens t o p] depth := by
  obtain ⟨w, hw⟩ := Token.exists_kind_eq_word_iff.2 h
  cases depth <;> simp [ofTokens, hw]

open Levels (Step Run Halt)

variable {l l' : Levels}

theorem after_after (as bs : List Atom) (m n : Nat) (s : Survey) :
    (s.after bs n).after as m = s.after (as ++ bs) (max m n) := by
  simp [after, Nat.max_assoc]

/-- The survey counts the levels that the reader keeps. -/
theorem ofTokens_step {p : Piece} (hp : p.IsProper) (h : Step l p l') (ts : List Token) :
    ofTokens l.outer.length (p.tokens ++ ts) =
      (ofTokens l'.outer.length ts).after p.atom?.toList l.outer.length := by
  cases h with
  | openParen hlt =>
    rw [Piece.tokens, List.singleton_append, ofTokens.eq_def]
    simp [hlt, Piece.atom?]
  | closeParen =>
    rw [Piece.tokens, List.singleton_append, ofTokens.eq_def]
    simp [Piece.atom?]
  | connective =>
    rw [Piece.tokens, List.singleton_append, ofTokens.eq_def]
    simp [Levels.push, Piece.atom?]
  | @atom l a =>
    have hword : Token.isWord ⟨a.subject⟩ = true := hp
    exact ofTokens_of_isWord hword ts
  | @idle l t =>
    rw [Piece.tokens, List.singleton_append, ofTokens.eq_def]
    rcases hp with ⟨op, hk⟩ | hk | hk <;> simp [hk, Piece.atom?]

/-- **The survey follows the run**, and passes the atoms of its pieces. -/
theorem ofTokens_run {ps : List Piece} (hps : ∀ p ∈ ps, p.IsProper) (h : Run l ps l')
    (ts : List Token) :
    ∃ depth, ofTokens l.outer.length (Piece.tokensOf ps ++ ts) =
      (ofTokens l'.outer.length ts).after (Piece.atomsOf ps) depth := by
  induction h with
  | nil => exact ⟨0, by simp [after]⟩
  | cons step _ ih =>
    obtain ⟨hp, hps⟩ := List.forall_mem_cons.1 hps
    obtain ⟨depth, hrest⟩ := ih hps
    rw [Piece.tokensOf_cons, List.append_assoc, ofTokens_step hp step, hrest, after_after,
      Piece.atomsOf_cons]
    exact ⟨_, rfl⟩

end Survey

namespace Obstacle

/-- The failure of a reading at an obstacle, with the tokens from there
on. -/
def error : Obstacle → List Token → ParseError
  | openParen, _ => .tooDeep maxNesting
  | word, ts => .truncated (ts.map Token.text)

/-- Whether an obstacle is what some tokens start with. -/
def Heads : Obstacle → List Token → Prop
  | openParen, ts => ∃ us, ts = Token.openParen :: us
  | word, ts => ∃ t us, ts = t :: us ∧ t.isWord = true ∧ us.length < 2

end Obstacle

namespace Survey

open Levels (Step Run Halt)

variable {l l' : Levels}

/-- How a survey accounts for the result of a reading: there is no obstacle
and no failure, or the failure is that of the obstacle, which is left. -/
inductive Explains (s : Survey) : Except ParseError Condition → Prop
  | ok {c : Condition} (h : s.obstacle = none) : Explains s (.ok c)
  | error {o : Obstacle} (h : s.obstacle = some o) (heads : o.Heads s.rest) :
      Explains s (.error (o.error s.rest))

namespace Explains

variable {s : Survey} {r : Except ParseError Condition}

theorem eq_error_iff (h : s.Explains r) {e : ParseError} :
    r = .error e ↔ ∃ o, s.obstacle = some o ∧ e = o.error s.rest := by
  cases h with
  | ok hnone => simp [hnone]
  | error hsome _ => simp [hsome, eq_comm]

theorem exists_ok_iff (h : s.Explains r) : (∃ c, r = .ok c) ↔ s.obstacle = none := by
  cases h with
  | ok hnone => simp [hnone]
  | error hsome _ => simp [hsome]

theorem heads (h : s.Explains r) {o : Obstacle} (ho : s.obstacle = some o) : o.Heads s.rest := by
  cases h with
  | ok hnone =>
    rw [hnone] at ho
    cases ho
  | error hsome heads =>
    rw [hsome] at ho
    cases ho
    exact heads

end Explains

/-- Where the reader halts the survey ends, at the obstacle if there is
one. -/
theorem ofTokens_halt {ts : List Token} {r : Except ParseError Condition} (h : Halt l ts r) :
    ∃ o, ofTokens l.outer.length ts = ⟨[], l.outer.length, o, ts⟩ ∧
      Explains ⟨[], l.outer.length, o, ts⟩ r := by
  cases h with
  | done => exact ⟨none, rfl, .ok rfl⟩
  | stray hout =>
    refine ⟨none, ?_, .ok rfl⟩
    rw [hout, ofTokens.eq_def]
    simp
  | @tooDeep ts hdeep =>
    refine ⟨some .openParen, ?_, .error (o := .openParen) rfl ⟨ts, rfl⟩⟩
    rw [ofTokens.eq_def]
    simp [Nat.not_lt.2 hdeep]
  | @truncated t ts hword hshort =>
    refine ⟨some .word, ?_, .error (o := .word) rfl ⟨t, ts, rfl, hword, hshort⟩⟩
    obtain ⟨w, hw⟩ := Token.exists_kind_eq_word_iff.2 hword
    rw [ofTokens.eq_def]
    rcases ts with _ | ⟨o, _ | ⟨p, ts⟩⟩
    · simp [hw]
    · simp [hw]
    · simp only [List.length_cons] at hshort
      omega

/-- **A survey accounts for a reading**: it explains the result, passes the
atoms that the reading completes and leaves the same tokens. -/
theorem accounts (ts : List Token) :
    ∃ r, (ofTokens 0 ts).Explains r ∧
      Condition.ofTokens ts = ⟨r, (ofTokens 0 ts).atoms, (ofTokens 0 ts).rest⟩ := by
  obtain ⟨ps, l, rest, r, hps, hrun, hhalt, rfl, hread⟩ := Condition.exists_run_ofTokens ts
  obtain ⟨depth, hsurvey⟩ := ofTokens_run hps hrun rest
  obtain ⟨o, hend, hexplains⟩ := ofTokens_halt hhalt
  have hstart : ofTokens 0 (Piece.tokensOf ps ++ rest) =
      ⟨Piece.atomsOf ps, max depth l.outer.length, o, rest⟩ := by
    rw [show (0 : Nat) = Levels.initial.outer.length from rfl, hsurvey, hend]
    simp [after]
  refine ⟨r, ?_, ?_⟩
  · cases hexplains with
    | ok h => exact .ok (by rw [hstart]; exact h)
    | error h heads => rw [hstart]; exact .error h heads
  · rw [hread, hstart]

end Survey

namespace Condition

/-- **A reading fails at the first obstacle**, for the reason that the
obstacle gives, and it fails nowhere else. Whatever record it adds to, it
leaves the tokens from the obstacle on, and what it has noted is the atoms
before it. -/
theorem descend_fails_iff (record : Record) (ts : List Token) :
    ((descend record ts).result = .error (.tooDeep maxNesting) ↔
        (Survey.ofTokens 0 ts).obstacle = some .openParen) ∧
      (∀ found, (descend record ts).result = .error (.truncated found) ↔
        (Survey.ofTokens 0 ts).obstacle = some .word ∧
          found = (Survey.ofTokens 0 ts).rest.map Token.text) ∧
      ((∃ c, (descend record ts).result = .ok c) ↔ (Survey.ofTokens 0 ts).obstacle = none) ∧
      (∀ o, (Survey.ofTokens 0 ts).obstacle = some o → o.Heads (Survey.ofTokens 0 ts).rest) ∧
      (descend record ts).rest = (Survey.ofTokens 0 ts).rest ∧
      (descend record ts).record =
        ⟨record.elements.insertAll ((Survey.ofTokens 0 ts).atoms.map Atom.subject),
          record.advisories ++ (Survey.ofTokens 0 ts).atoms.flatMap Atom.advisories⟩ ∧
      ofTokens ts = ⟨(descend record ts).result, (Survey.ofTokens 0 ts).atoms,
        (Survey.ofTokens 0 ts).rest⟩ := by
  obtain ⟨hresult, hrecord, hrest⟩ := descend_eq record ts
  obtain ⟨r, hexplains, hread⟩ := Survey.accounts ts
  rw [hresult, hrest, hrecord, hread, Record.noteAll_eq]
  refine ⟨?_, fun found => ?_, hexplains.exists_ok_iff, fun o ho => hexplains.heads ho, rfl, rfl,
    rfl⟩
  · rw [hexplains.eq_error_iff]
    constructor
    · rintro ⟨o, ho, he⟩
      cases o with
      | openParen => exact ho
      | word => cases he
    · exact fun ho => ⟨.openParen, ho, rfl⟩
  · rw [hexplains.eq_error_iff]
    constructor
    · rintro ⟨o, ho, he⟩
      cases o with
      | openParen => cases he
      | word => exact ⟨ho, ParseError.truncated.inj he⟩
    · rintro ⟨ho, rfl⟩
      exact ⟨.word, ho, rfl⟩

/-- With sixty-four groups open the parenthesis inside the atom does not
count, and the one behind it is too many. -/
theorem descend_fails_iff_in_deepest_group :
    (Survey.ofTokens 0 (List.replicate 64 Token.openParen ++
        Token.ofString "A ( 1 & (B == 2")).obstacle = some .openParen ∧
      (descend ∅ (List.replicate 64 Token.openParen ++
        Token.ofString "A ( 1 & (B == 2")).result = .error (.tooDeep maxNesting) ∧
      (descend ∅ (List.replicate 64 Token.openParen ++
        Token.ofString "A ( 1 & (B == 2")).rest = [⟨"("⟩, ⟨"B"⟩, ⟨"=="⟩, ⟨"2"⟩] ∧
      (descend ∅ (List.replicate 64 Token.openParen ++
        Token.ofString "A ( 1 & (B == 2")).record =
          ⟨.ofList ["A"], [.invalidOperator "A" "("]⟩ := by
  have hobstacle : (Survey.ofTokens 0 (List.replicate 64 Token.openParen ++
      Token.ofString "A ( 1 & (B == 2")).obstacle = some .openParen := by
    decide +kernel
  obtain ⟨hdeep, -, -, -, hrest, hrecord, -⟩ := descend_fails_iff ∅
    (List.replicate 64 Token.openParen ++ Token.ofString "A ( 1 & (B == 2")
  refine ⟨hobstacle, hdeep.2 hobstacle, ?_, ?_⟩
  · rw [hrest]
    decide +kernel
  · rw [hrecord]
    decide +kernel

end Condition

end DialogRules
