import DialogRules.Proofs.Statement

/-!
# The one division of a statement

A line that is a statement divides into its parts in one way only, the
blanks between them counted as parts (`Statement.Parts.eq_of_divide`). Every
part starts with a character that the part before it cannot hold; only the
blanks behind the condition are found from the end, where the semicolon is.
So it does not matter if the first word is the reserved one, or if the
condition holds that word or a semicolon again, and the halves that cutting
finds are those of the one division (`Statement.ofLine?_eq_some_iff_divide`).
-/

namespace DialogRules

/-! ## Blanks that are told apart -/

namespace Text

/-- **Blanks in front of a text** are told from it, if it does not start
with one. -/
theorem AreBlanks.append_inj {bs bs' cs cs' : List Char} (hbs : AreBlanks bs)
    (hbs' : AreBlanks bs') (hcs : ∀ c ∈ cs.head?, isBlank c = false)
    (hcs' : ∀ c ∈ cs'.head?, isBlank c = false) (h : bs ++ cs = bs' ++ cs') :
    bs = bs' ∧ cs = cs' := by
  have hrest : cs = cs' := by
    rw [← trimStart_append hbs hcs, h, trimStart_append hbs' hcs']
  subst hrest
  exact ⟨List.append_cancel_right h, rfl⟩

/-- **Blanks behind a text** are told from it, if it does not end with
one. -/
theorem AreBlanks.inj_append {bs bs' cs cs' : List Char} (hbs : AreBlanks bs)
    (hbs' : AreBlanks bs') (hcs : ∀ c ∈ cs.getLast?, isBlank c = false)
    (hcs' : ∀ c ∈ cs'.getLast?, isBlank c = false) (h : cs ++ bs = cs' ++ bs') :
    cs = cs' ∧ bs = bs' := by
  have hfront : cs = cs' := by
    rw [← trimEnd_append hbs hcs, h, trimEnd_append hbs' hcs']
  subst hfront
  exact ⟨rfl, List.append_cancel_left h⟩

/-- **A word in front of blanks** is told from them. -/
theorem word_append_inj {w w' bs bs' cs cs' : List Char} (hw : ∀ c ∈ w, isWordChar c = true)
    (hw' : ∀ c ∈ w', isWordChar c = true) (hbs : AreBlanks bs) (hbs' : AreBlanks bs')
    (hne : bs ≠ []) (hne' : bs' ≠ []) (h : w ++ (bs ++ cs) = w' ++ (bs' ++ cs')) :
    w = w' ∧ bs ++ cs = bs' ++ cs' := by
  have hsplit := Statement.splitWord_append_blanks cs hw hbs hne
  have hsplit' := Statement.splitWord_append_blanks cs' hw' hbs' hne'
  rw [h] at hsplit
  exact ⟨hsplit.1.symm.trans hsplit'.1, hsplit.2.symm.trans hsplit'.2⟩

/-- **What is left of a text** is what it is with blanks around it. -/
theorem trim_eq_iff {s t : String} (ht : IsTrimmed t.toList) (hne : t ≠ "") :
    trim s = t ↔ ∃ left right : String,
      AreBlanks left.toList ∧ AreBlanks right.toList ∧ s = left ++ t ++ right := by
  constructor
  · rintro rfl
    obtain ⟨left, hleft, hs⟩ := exists_append_trimStart s.toList
    obtain ⟨right, hright, hstart⟩ := exists_trimEnd_append (trimStart s.toList)
    refine ⟨String.ofList left, String.ofList right, by simpa, by simpa, ?_⟩
    rw [← String.toList_inj]
    simpa [trim, ← hstart] using hs
  · rintro ⟨left, right, hleft, hright, rfl⟩
    have hhead := ht.head_append (Text.toList_ne_nil.2 hne) right.toList
    rw [trim, String.toList_append, String.toList_append, List.append_assoc,
      trimStart_append hleft hhead, trimEnd_append hright ht.last, String.ofList_toList]

end Text

/-! ## The parts of a line -/

namespace Statement

open Text (AreBlanks IsTrimmed)

/-- The parts that a statement consists of, from left to right, but for the
reserved word and the semicolon. -/
structure Parts where
  /-- The word before the reserved word. -/
  action : String
  /-- The blanks before the reserved word. -/
  before : String
  /-- The blanks behind it. -/
  behind : String
  /-- The condition. -/
  condition : String
  /-- The blanks before the semicolon. -/
  after : String

namespace Parts

/-- The statement that the parts make up. -/
def text (p : Parts) : String :=
  p.action ++ p.before ++ ifWord ++ p.behind ++ p.condition ++ p.after ++ ";"

/-- Whether a line divides into the given parts. -/
structure Divide (p : Parts) (line : String) : Prop where
  /-- The line is the statement of the parts with blanks around it. -/
  line_eq : ∃ left right : String,
    AreBlanks left.toList ∧ AreBlanks right.toList ∧ line = left ++ p.text ++ right
  /-- The action is a word. -/
  action : Text.isWord p.action = true
  /-- There is a blank before the reserved word. -/
  before : AreBlanks p.before.toList ∧ p.before ≠ ""
  /-- And one behind it. -/
  behind : AreBlanks p.behind.toList ∧ p.behind ≠ ""
  /-- The condition is not blank, and the blanks around it are no part of
  it. -/
  condition : p.condition ≠ "" ∧ IsTrimmed p.condition.toList
  /-- There may be blanks before the semicolon. -/
  after : AreBlanks p.after.toList

variable {p q : Parts} {line : String}

theorem toList_text (p : Parts) :
    p.text.toList = p.action.toList ++ (p.before.toList ++ (ifWord.toList ++ (p.behind.toList ++
      (p.condition.toList ++ p.after.toList ++ [terminator])))) := by
  simp [text, terminator]

/-- A statement starts with a word and ends with a semicolon, so no blank is
at either end. -/
theorem isTrimmed_text (p : Parts) (haction : Text.isWord p.action = true) :
    IsTrimmed p.text.toList := by
  obtain ⟨hne, hall⟩ := Text.isWord_iff.1 haction
  obtain ⟨a, as, ha⟩ := List.exists_cons_of_ne_nil hne
  refine ⟨fun c hc => ?_, fun c hc => ?_⟩
  · rw [toList_text, ha, List.cons_append, List.head?_cons, Option.mem_some] at hc
    exact Text.isBlank_of_isWordChar (hall c (by simp [ha, hc]))
  · rw [text, String.toList_append, List.getLast?_append] at hc
    cases hc
    decide

/-- So a line is the statement with blanks around it if the statement is what
is left without them. -/
theorem trim_eq_text_iff (p : Parts) (haction : Text.isWord p.action = true) :
    Text.trim line = p.text ↔ ∃ left right : String,
      AreBlanks left.toList ∧ AreBlanks right.toList ∧ line = left ++ p.text ++ right :=
  Text.trim_eq_iff (isTrimmed_text p haction)
    (Text.toList_ne_nil.1 (by simp [toList_text, terminator]))

/-- **A statement with these halves** is a line that divides into parts with
these halves among them. -/
theorem written_iff {s : Statement} :
    s.Written line ↔
      ∃ p : Parts, p.Divide line ∧ p.action = s.action ∧ p.condition = s.condition := by
  constructor
  · rintro ⟨⟨before, behind, after, hline, hbefore, hbefore_ne, hbehind, hbehind_ne, hafter⟩,
      haction, hcondition, htrimmed⟩
    let p : Parts := ⟨s.action, before, behind, s.condition, after⟩
    exact ⟨p,
      { line_eq := (trim_eq_text_iff p haction).1 hline
        action := haction
        before := ⟨hbefore, hbefore_ne⟩
        behind := ⟨hbehind, hbehind_ne⟩
        condition := ⟨hcondition, htrimmed⟩
        after := hafter }, rfl, rfl⟩
  · rintro ⟨⟨action, before, behind, condition, after⟩, h, rfl, rfl⟩
    have hline := (trim_eq_text_iff _ h.action).2 h.line_eq
    refine ⟨⟨before, behind, after, hline, ?_⟩, h.action, h.condition.1, h.condition.2⟩
    exact ⟨h.before.1, h.before.2, h.behind.1, h.behind.2, h.after⟩

/-! ## There is one division -/

/-- The reserved word does not start with a blank. -/
theorem isBlank_of_head?_ifWord (cs : List Char) :
    ∀ c ∈ (ifWord.toList ++ cs).head?, Text.isBlank c = false := by
  intro c hc
  cases hc
  decide

/-- **A line has one division.** -/
theorem eq_of_divide (hp : p.Divide line) (hq : q.Divide line) : p = q := by
  have htext : p.text.toList = q.text.toList := by
    rw [← (trim_eq_text_iff p hp.action).2 hp.line_eq, (trim_eq_text_iff q hq.action).2 hq.line_eq]
  rw [toList_text, toList_text] at htext
  -- the parts are told from what follows them, one after the other
  obtain ⟨haction, hrest⟩ := Text.word_append_inj (Text.isWord_iff.1 hp.action).2
    (Text.isWord_iff.1 hq.action).2 hp.before.1 hq.before.1 (Text.toList_ne_nil.2 hp.before.2)
    (Text.toList_ne_nil.2 hq.before.2) htext
  obtain ⟨hbefore, hrest⟩ := hp.before.1.append_inj hq.before.1 (isBlank_of_head?_ifWord _)
    (isBlank_of_head?_ifWord _) hrest
  have hrest := List.append_cancel_left hrest
  rw [List.append_assoc, List.append_assoc] at hrest
  obtain ⟨hbehind, hrest⟩ := hp.behind.1.append_inj hq.behind.1
    (hp.condition.2.head_append (Text.toList_ne_nil.2 hp.condition.1) _)
    (hq.condition.2.head_append (Text.toList_ne_nil.2 hq.condition.1) _) hrest
  rw [← List.append_assoc, ← List.append_assoc] at hrest
  obtain ⟨hcondition, hafter⟩ := hp.after.inj_append hq.after hp.condition.2.last
    hq.condition.2.last (List.append_cancel_right hrest)
  cases p; cases q
  simp only [String.toList_inj] at haction hbefore hbehind hcondition hafter
  rw [haction, hbefore, hbehind, hcondition, hafter]

end Parts

/-- **Cutting finds the one division of a line.** A line is cut into two
halves exactly if it divides into parts with these halves among them, and no
line divides into parts in two ways. -/
theorem ofLine?_eq_some_iff_divide (line : String) :
    (∀ action condition : String, ofLine? line = some ⟨action, condition⟩ ↔
      ∃ p : Parts, p.Divide line ∧ p.action = action ∧ p.condition = condition) ∧
    ∀ p q : Parts, p.Divide line → q.Divide line → p = q :=
  ⟨fun _ _ => ofLine?_eq_some_iff.trans Parts.written_iff, fun _ _ => Parts.eq_of_divide⟩

/-- Here the reserved word is the action and stands in the condition too, and
so does a semicolon. -/
theorem ofLine?_reserved_thrice :
    Parts.Divide ⟨"if", "  ", "\u2003", "if\n;", " "⟩ "\tif  if\u2003if\n; ;\u3000" ∧
      ofLine? "\tif  if\u2003if\n; ;\u3000" = some ⟨"if", "if\n;"⟩ ∧
      ∀ p : Parts, p.Divide "\tif  if\u2003if\n; ;\u3000" →
        p = ⟨"if", "  ", "\u2003", "if\n;", " "⟩ := by
  have hdivide : Parts.Divide ⟨"if", "  ", "\u2003", "if\n;", " "⟩
      "\tif  if\u2003if\n; ;\u3000" :=
    { line_eq := ⟨"\t", "\u3000", by decide, by decide, by decide⟩
      action := by decide
      before := by decide
      behind := by decide
      condition := by decide
      after := by decide }
  obtain ⟨hhalves, hunique⟩ := ofLine?_eq_some_iff_divide "\tif  if\u2003if\n; ;\u3000"
  exact ⟨hdivide, (hhalves "if" "if\n;").2 ⟨_, hdivide, rfl, rfl⟩,
    fun p hp => hunique p _ hp hdivide⟩

end Statement

end DialogRules
