import DialogRules.Layout.Check
import DialogRules.Proofs.Condition.Atoms
import DialogRules.Proofs.Screen

/-!
# The strict and the lenient check agree

Checking a line looks at its condition twice: the reader builds the
condition and only advises, and the strict scan goes over the tokens
again and refuses. The reader may stop at a closing parenthesis that
closes nothing, and what is left then only the scan sees. For a condition
that passed the screen the two still come to the same verdict: the
parentheses are balanced as characters, so the one that is missing stands
inside an atom, and that atom is advised about before the reader stops
(`Screened.exists_strict_run`). So the verdict on the line can be read off
the reading alone (`Layout.judge`).
-/

namespace DialogRules

namespace Condition.Screened

variable {s : String}

/-- In a condition that is screened, the pieces that were read keep to
the vocabularies if their atoms do. -/
theorem isStrict_of_isWellFormed (h : Screened s) {ps : List Piece} {rest : List Token}
    (htokens : Token.ofString s = Piece.tokensOf ps ++ rest) (hps : ∀ p ∈ ps, p.IsProper)
    (hatoms : ∀ a ∈ Piece.atomsOf ps, a.isWellFormed = true) : ∀ p ∈ ps, p.IsStrict := by
  intro p hp
  have hproper := hps p hp
  cases p with
  | atom a => exact Piece.isStrict_atom.2 ⟨hproper, hatoms a (Piece.mem_atomsOf.2 hp)⟩
  | idle t =>
    refine h.isStrict_idle ?_ hproper
    have hmem : t ∈ Piece.tokensOf ps := List.mem_flatMap.2 ⟨_, hp, List.mem_singleton_self t⟩
    rw [htokens]
    exact List.mem_append_left rest hmem
  | openParen | closeParen | connective _ => trivial

/-- **Nothing is left behind strict pieces.** If everything that was read
keeps to the vocabularies, then the reader went to the end of the tokens
and every level was closed. -/
theorem complete (h : Screened s) {ps : List Piece} {rest : List Token} {l : Levels}
    {c : Condition} (htokens : Token.ofString s = Piece.tokensOf ps ++ rest)
    (hps : ∀ p ∈ ps, p.IsStrict) (hrun : Levels.Run Levels.initial ps l)
    (hhalt : Levels.Halt l rest (.ok c)) : rest = [] ∧ l.outer = [] := by
  have hrest : Text.depthAfter? l.outer.length (Piece.chars rest) = some 0 := by
    have hread : Text.depthAfter? 0 (Piece.chars (Piece.tokensOf ps)) = some l.outer.length :=
      hrun.depthAfter?_eq hps
    have hall := h.depthAfter?_tokens
    rw [htokens, Piece.chars_append, Text.depthAfter?_append, hread, Option.bind_some] at hall
    exact hall
  cases hhalt with
  | done =>
    have hzero : some l.outer.length = some 0 := hrest
    exact ⟨rfl, List.eq_nil_of_length_eq_zero (Option.some.inj hzero)⟩
  | stray hout =>
    -- the characters would close a parenthesis that is not open
    rw [hout] at hrest
    cases hrest

/-- **A reading without advisories is complete**: it took strict pieces,
to the end of the tokens and back to the outermost level. -/
theorem exists_strict_run (h : Screened s) {c : Condition} (hc : (Condition.read s).result = .ok c)
    (hadvisories : (Condition.read s).advisories = []) :
    ∃ ps l, (∀ p ∈ ps, p.IsStrict) ∧ Levels.Run Levels.initial ps l ∧ l.outer = [] ∧
      Token.ofString s = Piece.tokensOf ps ∧ (Condition.read s).atoms = Piece.atomsOf ps := by
  obtain ⟨ps, l, rest, r, hps, hrun, hhalt, htokens, hread⟩ :=
    exists_run_ofTokens (Token.ofString s)
  rw [Reading.advisories_eq_nil_iff] at hadvisories
  rw [Condition.read, hread] at hc hadvisories ⊢
  have hresult : r = .ok c := hc
  subst hresult
  have hstrict := h.isStrict_of_isWellFormed htokens hps hadvisories
  obtain ⟨rfl, hout⟩ := h.complete htokens hstrict hrun hhalt
  rw [List.append_nil] at htokens
  exact ⟨ps, l, hstrict, hrun, hout, htokens, rfl⟩

/-- **The scan finds nothing that the reader did not advise about**, and
misses nothing that it did. -/
theorem fault?_eq (h : Screened s) {c : Condition} (hc : (Condition.read s).result = .ok c) :
    Atom.fault? (Token.ofString s) =
      (Condition.read s).advisories.head?.map .malformedAtom := by
  cases hadvisories : (Condition.read s).advisories with
  | cons d ds =>
    -- the scan stops before the rest, whatever the reader left there
    obtain ⟨ps, l, rest, r, hps, -, -, htokens, hread⟩ :=
      exists_run_ofTokens (Token.ofString s)
    rw [Condition.read, hread] at hadvisories
    have hatoms : (Piece.atomsOf ps).flatMap Atom.advisories = d :: ds := hadvisories
    rw [htokens, Atom.fault?_append hps, hatoms]
    rfl
  | nil =>
    obtain ⟨ps, l, hstrict, -, -, htokens, hatoms⟩ := h.exists_strict_run hc hadvisories
    have hproper : ∀ p ∈ ps, p.IsProper := fun p hp => (hstrict p hp).isProper
    have hscan := Atom.fault?_append hproper []
    rw [List.append_nil, ← htokens, ← hatoms] at hscan
    rw [Reading.advisories] at hadvisories
    rw [hscan, hadvisories]
    rfl

end Condition.Screened

namespace Layout

/-- The verdict on a line going by the reading of its condition alone: the
failure of the reading, or else the elements that the layout does not
have, or else the first advisory. -/
def judge (layout : Layout) (r : Reading) : Except Refusal Elements :=
  match r.result with
  | .error e => .error (.parse e)
  | .ok _ =>
    match layout.unknown r.elements with
    | name :: names => .error (.unknownElements (name :: names))
    | [] =>
      match r.advisories with
      | a :: _ => .error (.malformedAtom a)
      | [] => .ok r.elements

/-- A line that the screen refuses is refused for the same cause, whatever the
layout. -/
theorem checkLine_of_screen_error {line : String} {cause : Refusal} (layout : Layout)
    (h : Statement.screen line = .error cause) : layout.checkLine line = .error cause := by
  rw [checkLine, examine, h]

/-- A line that passes the screen is judged by the reading of its
condition. -/
theorem checkLine_of_screen (layout : Layout) {line condition : String}
    (h : Statement.screen line = .ok condition) :
    layout.checkLine line = layout.judge (Condition.read condition) := by
  have hscreened := (Statement.screen_eq_ok_iff.1 h).2
  rw [checkLine, examine, h, judge]
  cases hresult : (Condition.read condition).result with
  | error e => simp only [hresult]
  | ok c =>
    have hscan := hscreened.fault?_eq hresult
    simp only [hresult, fault?]
    cases layout.unknown (Condition.read condition).elements with
    | cons name names => rfl
    | nil =>
      simp only [hscan]
      cases (Condition.read condition).advisories with
      | cons a as => rfl
      | nil => rfl

/-- The verdict is good if the reading leaves nothing to complain
about. -/
theorem judge_eq_ok_iff {layout : Layout} {r : Reading} {es : Elements} :
    layout.judge r = .ok es ↔
      (∃ c, r.result = .ok c) ∧ (∀ name ∈ r.elements, name ∈ layout) ∧ r.advisories = [] ∧
        r.elements = es := by
  have hknown : (∀ name ∈ r.elements, name ∈ layout) ↔ layout.unknown r.elements = [] := by
    simp [List.eq_nil_iff_forall_not_mem, mem_unknown]
  rw [hknown, judge]
  cases r.result with
  | error e => simp
  | ok c =>
    cases layout.unknown r.elements with
    | cons name names => simp
    | nil =>
      cases r.advisories with
      | cons a as => simp
      | nil => simp

/-- An atom is a reason to refuse if it is the first to be advised about, and
all elements are known. -/
theorem judge_eq_malformedAtom_iff {layout : Layout} {r : Reading} {a : Advisory} :
    layout.judge r = .error (.malformedAtom a) ↔
      (∃ c, r.result = .ok c) ∧ layout.unknown r.elements = [] ∧
        r.advisories.head? = some a := by
  rw [judge]
  cases r.result with
  | error e => simp
  | ok c =>
    cases layout.unknown r.elements with
    | cons name names => simp
    | nil => cases r.advisories <;> simp

/-- So a line is accepted if it passes the screen and the reading of its
condition leaves nothing to complain about. -/
theorem checkLine_eq_ok_iff_judge {layout : Layout} {line : String} {es : Elements} :
    layout.checkLine line = .ok es ↔
      ∃ condition, Statement.screen line = .ok condition ∧
        layout.judge (Condition.read condition) = .ok es := by
  constructor
  · intro h
    cases hscreen : Statement.screen line with
    | error e =>
      rw [checkLine, examine, hscreen] at h
      cases h
    | ok condition =>
      rw [checkLine_of_screen layout hscreen] at h
      exact ⟨condition, rfl, h⟩
  · rintro ⟨condition, hscreen, hjudge⟩
    rw [checkLine_of_screen layout hscreen, hjudge]

/-- **The two checks agree** on every line that passes the screen: the
verdict is the one that the reading of the condition leads to, and the
strict scan of a condition that could be read finds no atom cut short,
also where the reading stopped early. -/
theorem checkLine_eq_judge (layout : Layout) {line condition : String}
    (h : Statement.screen line = .ok condition) :
    layout.checkLine line = layout.judge (Condition.read condition) ∧
      ∀ c, (Condition.read condition).result = .ok c →
        ∀ e, Atom.fault? (Token.ofString condition) ≠ some (.parse e) := by
  refine ⟨checkLine_of_screen layout h, ?_⟩
  intro c hc e hfault
  rw [(Statement.screen_eq_ok_iff.1 h).2.fault?_eq hc] at hfault
  obtain ⟨a, -, ha⟩ := Option.map_eq_some_iff.1 hfault
  cases ha

/-- Here the reader stops at the last parenthesis and leaves a word that
is cut short. The scan does not come to it, and the line is refused for
the atom before. -/
theorem checkLine_stray_closeParen :
    Statement.screen "show if A ( B ) & C;" = .ok "A ( B ) & C" ∧
      (Condition.read "A ( B ) & C").rest = [⟨")"⟩, ⟨"&"⟩, ⟨"C"⟩] ∧
      (ofList ["A"]).checkLine "show if A ( B ) & C;" =
        .error (.malformedAtom (.invalidOperator "A" "(")) ∧
      Atom.fault? (Token.ofString "A ( B ) & C") ≠ some (.parse (.truncated ["C"])) := by
  have hscreen : Statement.screen "show if A ( B ) & C;" = .ok "A ( B ) & C" := by
    decide +kernel
  have hresult : (Condition.read "A ( B ) & C").result = .ok (.atom ⟨"A", "(", "B"⟩) := by
    decide +kernel
  have hagree := checkLine_eq_judge (ofList ["A"]) hscreen
  refine ⟨hscreen, by decide +kernel, ?_, hagree.2 _ hresult _⟩
  rw [hagree.1]
  decide +kernel

end Layout

end DialogRules
