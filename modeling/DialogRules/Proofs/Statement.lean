import DialogRules.Proofs.Lexeme
import DialogRules.Statement

/-!
# The grammar of a statement

A line is a statement exactly if, without the blanks around it, it is a
word, blanks, the reserved word, blanks, a condition, perhaps blanks, and
a semicolon (`Statement.Written`). The parts are then unique, for cutting
finds them (`ofLine?_eq_some_iff`), even if the first word is the reserved
one or the condition holds it again.
-/

namespace DialogRules

/-! ## Blanks around a text -/

namespace Text

theorem toList_ne_nil {s : String} : s.toList ≠ [] ↔ s ≠ "" :=
  not_congr String.toList_eq_nil_iff

/-- Whether a text is blanks alone. -/
def AreBlanks (cs : List Char) : Prop := ∀ c ∈ cs, isBlank c = true

instance (cs : List Char) : Decidable (AreBlanks cs) :=
  List.decidableBAll (fun c => isBlank c = true) cs

/-- Whether a text has no blank at either end. -/
structure IsTrimmed (cs : List Char) : Prop where
  head : ∀ c ∈ cs.head?, isBlank c = false
  last : ∀ c ∈ cs.getLast?, isBlank c = false

theorem isTrimmed_iff {cs : List Char} :
    IsTrimmed cs ↔ cs.head?.all (fun c => !isBlank c) = true ∧
      cs.getLast?.all (fun c => !isBlank c) = true := by
  simp only [Option.all_eq_true, Bool.not_eq_true']
  exact ⟨fun h => ⟨h.head, h.last⟩, fun h => ⟨h.1, h.2⟩⟩

instance (cs : List Char) : Decidable (IsTrimmed cs) := decidable_of_iff _ isTrimmed_iff.symm

/-- A text with no blank at its start has none there if another follows. -/
theorem IsTrimmed.head_append {cs : List Char} (h : IsTrimmed cs) (hne : cs ≠ [])
    (ds : List Char) : ∀ c ∈ (cs ++ ds).head?, isBlank c = false := by
  cases cs with
  | nil => exact absurd rfl hne
  | cons c cs => exact h.head

/-- The blanks before a text are dropped, and nothing behind them. -/
theorem trimStart_append {bs cs : List Char} (hbs : AreBlanks bs)
    (hcs : ∀ c ∈ cs.head?, isBlank c = false) : trimStart (bs ++ cs) = cs := by
  rw [trimStart, List.dropWhile_append_of_pos hbs]
  cases cs with
  | nil => rfl
  | cons c cs =>
    have hc : isBlank c = false := hcs c rfl
    exact List.dropWhile_cons_of_neg (by simp [hc])

/-- The blanks behind a text are dropped, and nothing before them. -/
theorem trimEnd_append {bs cs : List Char} (hbs : AreBlanks bs)
    (hcs : ∀ c ∈ cs.getLast?, isBlank c = false) : trimEnd (cs ++ bs) = cs := by
  have hrev : AreBlanks bs.reverse := fun c hc => hbs c (List.mem_reverse.1 hc)
  have hhead : ∀ c ∈ cs.reverse.head?, isBlank c = false := by
    rwa [List.head?_reverse]
  have h := trimStart_append hrev hhead
  rw [trimEnd, List.reverse_append]
  rw [trimStart] at h
  rw [h, List.reverse_reverse]

theorem head?_trimStart (cs : List Char) : ∀ c ∈ (trimStart cs).head?, isBlank c = false := by
  intro c hc
  have h := List.head?_dropWhile_not isBlank cs
  rw [trimStart] at hc
  rw [hc] at h
  simpa using h

theorem getLast?_trimEnd (cs : List Char) : ∀ c ∈ (trimEnd cs).getLast?, isBlank c = false := by
  intro c hc
  rw [trimEnd, List.getLast?_reverse] at hc
  exact head?_trimStart cs.reverse c hc

/-- A text is blanks and what is left without them. -/
theorem exists_append_trimStart (cs : List Char) : ∃ bs, AreBlanks bs ∧ cs = bs ++ trimStart cs :=
  ⟨cs.takeWhile isBlank, fun _ hc => List.all_eq_true.1 List.all_takeWhile _ hc,
    List.takeWhile_append_dropWhile.symm⟩

theorem exists_trimEnd_append (cs : List Char) : ∃ bs, AreBlanks bs ∧ cs = trimEnd cs ++ bs := by
  obtain ⟨bs, hbs, h⟩ := exists_append_trimStart cs.reverse
  refine ⟨bs.reverse, fun c hc => hbs c (List.mem_reverse.1 hc), ?_⟩
  rw [trimStart] at h
  rw [trimEnd, ← List.reverse_append, ← h, List.reverse_reverse]

/-- Dropping blanks behind a text leaves its first character, if anything
is left. -/
theorem head?_trimEnd {cs : List Char} (h : ∀ c ∈ cs.head?, isBlank c = false) :
    ∀ c ∈ (trimEnd cs).head?, isBlank c = false := by
  intro c hc
  obtain ⟨bs, -, happ⟩ := exists_trimEnd_append cs
  refine h c ?_
  rw [happ, List.head?_append, Option.mem_def.1 hc]
  rfl

end Text

/-! ## The parts of a statement -/

namespace Statement

open Text (AreBlanks IsTrimmed)

/-- Whether a text is that of a statement without its semicolon. -/
structure IsBody (s : Statement) (cs : List Char) : Prop where
  parts : ∃ before behind after : List Char,
    cs = s.action.toList ++
        (before ++ (ifWord.toList ++ (behind ++ (s.condition.toList ++ after)))) ∧
      AreBlanks before ∧ before ≠ [] ∧ AreBlanks behind ∧ behind ≠ [] ∧ AreBlanks after
  action : Text.isWord s.action = true
  condition : s.condition ≠ ""
  trimmed : IsTrimmed s.condition.toList

theorem skipBlanks?_eq_some {cs ds : List Char} (h : skipBlanks? cs = some ds) :
    (∃ bs, AreBlanks bs ∧ bs ≠ [] ∧ cs = bs ++ ds) ∧ ∀ c ∈ ds.head?, Text.isBlank c = false := by
  rw [skipBlanks?] at h
  split at h
  · rename_i hhead
    cases h
    obtain ⟨bs, hbs, happ⟩ := Text.exists_append_trimStart cs
    have hstart := Text.head?_trimStart cs
    refine ⟨⟨bs, hbs, ?_, happ⟩, hstart⟩
    -- without a blank before it the text would start with one all the same
    rintro rfl
    rw [List.nil_append] at happ
    obtain ⟨c, hc, hblank⟩ := (Option.any_eq_true _ _).1 hhead
    rw [hstart c (happ ▸ hc)] at hblank
    cases hblank
  · cases h

theorem skipBlanks?_append {bs ds : List Char} (hbs : AreBlanks bs) (hne : bs ≠ [])
    (hds : ∀ c ∈ ds.head?, Text.isBlank c = false) : skipBlanks? (bs ++ ds) = some ds := by
  obtain ⟨b, rest, rfl⟩ := List.exists_cons_of_ne_nil hne
  have hb : Text.isBlank b = true := hbs b List.mem_cons_self
  have htrim := Text.trimStart_append hbs hds
  simp only [skipBlanks?, htrim]
  simp [hb]

theorem skipReserved?_eq_some {cs ds : List Char} :
    skipReserved? cs = some ds ↔ cs = ifWord.toList ++ ds := by
  rw [skipReserved?]
  constructor
  · intro h
    split at h
    · rename_i hp
      cases h
      have happ := List.prefix_iff_eq_append.1 (List.isPrefixOf_iff_prefix.1 hp)
      rw [String.length_toList] at happ
      exact happ.symm
    · cases h
  · rintro rfl
    have hp : ifWord.toList.isPrefixOf (ifWord.toList ++ ds) = true := by simp
    rw [if_pos hp, ← String.length_toList, List.drop_left]

/-- The word before the first blank is split off as a whole. -/
theorem splitWord_append_blanks {w bs : List Char} (ds : List Char)
    (hw : ∀ c ∈ w, Text.isWordChar c = true) (hbs : AreBlanks bs) (hne : bs ≠ []) :
    (w ++ (bs ++ ds)).takeWhile Text.isWordChar = w ∧
      (w ++ (bs ++ ds)).dropWhile Text.isWordChar = bs ++ ds := by
  refine Text.splitWord_append hw fun c hc => ?_
  obtain ⟨b, rest, rfl⟩ := List.exists_cons_of_ne_nil hne
  cases hc
  cases hword : Text.isWordChar c with
  | false => rfl
  | true =>
    have hblank := Text.isBlank_of_isWordChar hword
    rw [hbs c List.mem_cons_self] at hblank
    cases hblank

theorem isWord_ofList {w : List Char} :
    Text.isWord (String.ofList w) = true ↔ w ≠ [] ∧ ∀ c ∈ w, Text.isWordChar c = true := by
  simp [Text.isWord]

/-- What cutting finds is a body. -/
theorem isBody_of_ofBody? {cs : List Char} {s : Statement} (h : ofBody? cs = some s) :
    s.IsBody cs := by
  simp only [ofBody?, Option.bind_eq_bind, Option.bind_eq_some_iff] at h
  obtain ⟨rest, hskip, rest', hreserved, rest'', hskip', h⟩ := h
  obtain ⟨⟨before, hbefore, hbefore_ne, hcs⟩, -⟩ := skipBlanks?_eq_some hskip
  obtain ⟨⟨behind, hbehind, hbehind_ne, hrest'⟩, hhead⟩ := skipBlanks?_eq_some hskip'
  obtain ⟨after, hafter, hrest''⟩ := Text.exists_trimEnd_append rest''
  split at h
  · cases h
  · rename_i hne
    cases h
    simp only [Bool.or_eq_true, List.isEmpty_iff, not_or] at hne
    have hword : ∀ c ∈ cs.takeWhile Text.isWordChar, Text.isWordChar c = true := fun c hc =>
      List.all_eq_true.1 List.all_takeWhile c hc
    refine ⟨⟨before, behind, after, ?_, hbefore, hbefore_ne, hbehind, hbehind_ne, hafter⟩,
      isWord_ofList.2 ⟨hne.1, hword⟩, ?_, ?_, ?_⟩
    · rw [String.toList_ofList, String.toList_ofList, ← hrest'', ← hrest',
        ← skipReserved?_eq_some.1 hreserved, ← hcs, List.takeWhile_append_dropWhile]
    · intro he
      have hempty := congrArg String.toList he
      rw [String.toList_ofList] at hempty
      exact hne.2 hempty
    · rw [String.toList_ofList]
      exact Text.head?_trimEnd hhead
    · rw [String.toList_ofList]
      exact Text.getLast?_trimEnd rest''

/-- And a body is cut where its parts meet. -/
theorem ofBody?_of_isBody {cs : List Char} {s : Statement} (h : s.IsBody cs) :
    ofBody? cs = some s := by
  obtain ⟨⟨before, behind, after, rfl, hbefore, hbefore_ne, hbehind, hbehind_ne, hafter⟩, haction,
    hcondition, htrimmed⟩ := h
  obtain ⟨action, condition⟩ := s
  simp only at haction hcondition htrimmed ⊢
  -- every part starts with what the part before it cannot hold, so each cut is forced
  have hcondition_ne : condition.toList ≠ [] := fun he =>
    hcondition (String.toList_injective he)
  obtain ⟨haction_ne, hword⟩ : action.toList ≠ [] ∧ ∀ c ∈ action.toList,
      Text.isWordChar c = true := by
    rw [← isWord_ofList, String.ofList_toList]
    exact haction
  have hsplit := splitWord_append_blanks (ifWord.toList ++ (behind ++ (condition.toList ++ after)))
    hword hbefore hbefore_ne
  have hif : ∀ c ∈ (ifWord.toList ++ (behind ++ (condition.toList ++ after))).head?,
      Text.isBlank c = false := by
    intro c hc
    cases hc
    decide
  have hhead := htrimmed.head_append hcondition_ne after
  have hreserved := skipReserved?_eq_some.2
    (rfl : ifWord.toList ++ (behind ++ (condition.toList ++ after)) = _)
  simp only [ofBody?, Option.bind_eq_bind, hsplit.1, hsplit.2,
    skipBlanks?_append hbefore hbefore_ne hif, Option.bind_some, hreserved,
    skipBlanks?_append hbehind hbehind_ne hhead, Text.trimEnd_append hafter htrimmed.last,
    String.ofList_toList]
  simp [haction_ne, hcondition_ne]

/-- **A body is cut exactly where its parts meet.** -/
theorem ofBody?_eq_some_iff {cs : List Char} {s : Statement} :
    ofBody? cs = some s ↔ s.IsBody cs :=
  ⟨isBody_of_ofBody?, ofBody?_of_isBody⟩

/-! ## The grammar -/

/-- Whether a line is written as a statement, with the given halves. -/
structure Written (s : Statement) (line : String) : Prop where
  /-- The parts of the line, from left to right. -/
  parts : ∃ before behind after : String,
    Text.trim line =
        s.action ++ before ++ ifWord ++ behind ++ s.condition ++ after ++ ";" ∧
      AreBlanks before.toList ∧ before ≠ "" ∧ AreBlanks behind.toList ∧ behind ≠ "" ∧
      AreBlanks after.toList
  /-- The action is a word. -/
  action : Text.isWord s.action = true
  /-- The condition is not blank. -/
  condition : s.condition ≠ ""
  /-- The blanks around the condition are no part of it. -/
  trimmed : IsTrimmed s.condition.toList

theorem unterminated?_eq_some {cs body : List Char} :
    unterminated? cs = some body ↔ cs = body ++ [terminator] := by
  rw [unterminated?]
  constructor
  · intro h
    split at h
    · rename_i hlast
      cases h
      obtain ⟨ds, rfl⟩ := List.getLast?_eq_some_iff.1 hlast
      rw [List.dropLast_concat]
    · cases h
  · rintro rfl
    simp

/-- A line is written as a statement if its characters before the
semicolon are a body. -/
theorem written_iff {s : Statement} {line : String} :
    s.Written line ↔ ∃ body, (Text.trim line).toList = body ++ [terminator] ∧ s.IsBody body := by
  constructor
  · rintro ⟨⟨before, behind, after, hline, hbefore, hbefore_ne, hbehind, hbehind_ne, hafter⟩,
      haction, hcondition, htrimmed⟩
    refine ⟨_, ?_, ⟨⟨before.toList, behind.toList, after.toList, rfl, hbefore,
      Text.toList_ne_nil.2 hbefore_ne, hbehind, Text.toList_ne_nil.2 hbehind_ne, hafter⟩, haction,
      hcondition, htrimmed⟩⟩
    rw [hline]
    simp [terminator]
  · rintro ⟨body, hline, ⟨before, behind, after, rfl, hbefore, hbefore_ne, hbehind, hbehind_ne,
      hafter⟩, haction, hcondition, htrimmed⟩
    refine ⟨⟨String.ofList before, String.ofList behind, String.ofList after, ?_, ?_⟩, haction,
      hcondition, htrimmed⟩
    · rw [← String.toList_inj, hline]
      simp [terminator]
    · simp [hbefore, hbefore_ne, hbehind, hbehind_ne, hafter]

/-- **The lines that are statements are the ones that are written so**,
with the same halves. -/
theorem ofLine?_eq_some_iff {line : String} {s : Statement} :
    ofLine? line = some s ↔ s.Written line := by
  rw [written_iff, ofLine?]
  simp only [Option.bind_eq_bind, Option.bind_eq_some_iff, unterminated?_eq_some,
    ofBody?_eq_some_iff]

end Statement

end DialogRules
