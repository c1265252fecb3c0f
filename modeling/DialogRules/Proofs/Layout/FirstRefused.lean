import DialogRules.Proofs.Layout.Load
import DialogRules.Proofs.Row

/-!
# The first row that is refused

The check of a document is said here by its rows. A row is refused if it is
not blank and the check of a line refuses it (`Layout.Refuses`); whether
blanks stand around it does not matter (`checkLine_trim`). The first row
that is refused decides what the check says, under its number among all
rows (`check_eq_error_iff`). If none is, the answer is the elements of the
rows together (`check_eq_ok_iff`). What the check says of two documents
behind each other follows from what it says of each
(`check_append_newline`).
-/

namespace DialogRules

/-- The same refusal of a line whose number is greater by `n`. -/
def RefusedLine.later (n : Nat) (e : RefusedLine) : RefusedLine := { e with line := e.line.later n }

namespace Layout

variable {layout : Layout} {row document : String} {cause : Refusal}

/-! ## Lines behind each other -/

/-- Putting no elements before others changes nothing. -/
theorem map_empty_append {ε : Type} (v : Except ε Elements) : v.map (∅ ++ ·) = v := by
  cases v with
  | error e => rfl
  | ok es => exact congrArg Except.ok (Elements.empty_append es)

/-- Elements are put before others one after another or together. -/
theorem map_append_append {ε : Type} (es fs : Elements) (v : Except ε Elements) :
    (v.map (fs ++ ·)).map (es ++ ·) = v.map (es ++ fs ++ ·) := by
  cases v with
  | error e => rfl
  | ok gs => exact congrArg Except.ok (Elements.extend_assoc es fs gs).symm

/-- **Lines behind others** are checked if the others are accepted. -/
theorem checkLines_append (layout : Layout) (xs ys : List Line) :
    layout.checkLines (xs ++ ys) =
      match layout.checkLines xs with
      | .error e => .error e
      | .ok es => (layout.checkLines ys).map (es ++ ·) := by
  induction xs with
  | nil => exact (map_empty_append (layout.checkLines ys)).symm
  | cons line xs ih =>
    rw [List.cons_append, checkLines, checkLines]
    cases layout.checkLine line.text with
    | error cause => rfl
    | ok es =>
      simp only [ih]
      cases layout.checkLines xs with
      | error e => rfl
      | ok fs => exact map_append_append es fs (layout.checkLines ys)

/-! ## Rows -/

/-- Blanks around a line do not matter to its check. -/
theorem checkLine_trim (layout : Layout) (line : String) :
    layout.checkLine (Text.trim line) = layout.checkLine line := by
  have hscreen : Statement.screen (Text.trim line) = Statement.screen line := by
    rw [Statement.screen, Statement.screen, Statement.ofLine?_trim, Text.trim_trim]
  rw [checkLine, checkLine, examine, examine, hscreen]

/-- Whether a row of a document is refused for a cause. -/
def Refuses (layout : Layout) (row : String) (cause : Refusal) : Prop :=
  Text.trim row ≠ "" ∧ layout.checkLine row = .error cause

/-- The names of the elements of a row that is accepted; other rows have
none. -/
def namesIn (layout : Layout) (row : String) : List String :=
  if Text.trim row = "" then []
  else
    match layout.checkLine row with
    | .ok es => es.names
    | .error _ => []

/-- A row that is not refused adds the elements of its line, if it has
one. -/
theorem checkLines_cons_row (h : ∀ cause, ¬ layout.Refuses row cause) (first : Nat)
    (rows : List String) :
    layout.checkLines (Line.ofRows first (row :: rows)) =
      (layout.checkLines (Line.ofRows (first + 1) rows)).map
        (Elements.ofList (layout.namesIn row) ++ ·) := by
  by_cases hblank : Text.trim row = ""
  · rw [Line.ofRows, if_pos hblank, namesIn, if_pos hblank]
    exact (map_empty_append _).symm
  · rw [Line.ofRows, if_neg hblank, namesIn, if_neg hblank, checkLines, checkLine_trim]
    cases hline : layout.checkLine row with
    | error cause => exact absurd ⟨hblank, hline⟩ (h cause)
    | ok es => simp only [Elements.ofList_names]

/-- A row that is refused decides. -/
theorem checkLines_cons_row_of_refuses (h : layout.Refuses row cause) (first : Nat)
    (rows : List String) :
    layout.checkLines (Line.ofRows first (row :: rows)) =
      .error ⟨⟨first, Text.trim row⟩, cause⟩ := by
  rw [Line.ofRows, if_neg h.1, checkLines, checkLine_trim, h.2]

/-- Rows of which none is refused give their elements together. -/
theorem checkLines_ofRows {rows : List String}
    (h : ∀ row ∈ rows, ∀ cause, ¬ layout.Refuses row cause) (first : Nat) :
    layout.checkLines (Line.ofRows first rows) =
      .ok (Elements.ofList (rows.flatMap layout.namesIn)) := by
  induction rows generalizing first with
  | nil => rfl
  | cons row rows ih =>
    obtain ⟨hrow, hrows⟩ := List.forall_mem_cons.1 h
    rw [checkLines_cons_row hrow, ih hrows, List.flatMap_cons, Elements.ofList_append]
    rfl

/-! ## Documents -/

/-- Either no row is refused, or there is a first that is. -/
theorem not_refuses_or_exists_first (layout : Layout) (rows : List String) :
    (∀ row ∈ rows, ∀ cause, ¬ layout.Refuses row cause) ∨
      ∃ before row behind cause, rows = before ++ row :: behind ∧
        (∀ r ∈ before, ∀ c, ¬ layout.Refuses r c) ∧ layout.Refuses row cause := by
  induction rows with
  | nil => exact .inl nofun
  | cons row rows ih =>
    by_cases hrow : ∃ cause, layout.Refuses row cause
    · obtain ⟨cause, hcause⟩ := hrow
      exact .inr ⟨[], row, rows, cause, rfl, nofun, hcause⟩
    · have hrow' := not_exists.1 hrow
      rcases ih with hrows | ⟨before, fault, behind, cause, hsplit, hbefore, hfault⟩
      · exact .inl (List.forall_mem_cons.2 ⟨hrow', hrows⟩)
      · refine .inr ⟨row :: before, fault, behind, cause, ?_,
          List.forall_mem_cons.2 ⟨hrow', hbefore⟩, hfault⟩
        rw [hsplit, List.cons_append]

/-- If no row is refused, the answer is the elements of all of them. -/
theorem check_of_not_refuses
    (h : ∀ row ∈ Text.rows document, ∀ cause, ¬ layout.Refuses row cause) :
    layout.check document =
      .ok (Elements.ofList ((Text.rows document).flatMap layout.namesIn)) := by
  rw [check, Line.ofDocument_eq_ofRows, checkLines_ofRows h]

/-- The first row that is refused decides. -/
theorem check_of_refuses {before behind : List String}
    (hrows : Text.rows document = before ++ row :: behind)
    (hbefore : ∀ r ∈ before, ∀ c, ¬ layout.Refuses r c) (h : layout.Refuses row cause) :
    layout.check document = .error ⟨⟨before.length + 1, Text.trim row⟩, cause⟩ := by
  rw [check, Line.ofDocument_eq_ofRows, hrows, Line.ofRows_append, checkLines_append,
    checkLines_ofRows hbefore, checkLines_cons_row_of_refuses h, Nat.add_comm 1]
  rfl

/-- **The check fails for the first row that is refused**, and says where it
is, what it is without the blanks around it, and why it is refused. -/
theorem check_eq_error_iff {e : RefusedLine} :
    layout.check document = .error e ↔
      ∃ before row behind, Text.rows document = before ++ row :: behind ∧
        (∀ r ∈ before, ∀ c, ¬ layout.Refuses r c) ∧ layout.Refuses row e.cause ∧
        e.line = ⟨before.length + 1, Text.trim row⟩ := by
  constructor
  · intro h
    rcases not_refuses_or_exists_first layout (Text.rows document) with
      hnone | ⟨before, row, behind, cause, hrows, hbefore, hrow⟩
    · rw [check_of_not_refuses hnone] at h
      cases h
    · rw [check_of_refuses hrows hbefore hrow] at h
      cases h
      exact ⟨before, row, behind, hrows, hbefore, hrow, rfl⟩
  · rintro ⟨before, row, behind, hrows, hbefore, hrow, hline⟩
    rw [check_of_refuses hrows hbefore hrow, ← hline]

/-- **The check succeeds if no row is refused**, with the elements of the
rows in the order of first occurrence. -/
theorem check_eq_ok_iff {es : Elements} :
    layout.check document = .ok es ↔
      (∀ row ∈ Text.rows document, ∀ cause, ¬ layout.Refuses row cause) ∧
        es.names = ((Text.rows document).flatMap layout.namesIn).eraseDups := by
  constructor
  · intro h
    rcases not_refuses_or_exists_first layout (Text.rows document) with
      hnone | ⟨before, row, behind, cause, hrows, hbefore, hrow⟩
    · rw [check_of_not_refuses hnone] at h
      exact ⟨hnone, by rw [← Except.ok.inj h, Elements.names_ofList]⟩
    · rw [check_of_refuses hrows hbefore hrow] at h
      cases h
  · rintro ⟨hnone, hnames⟩
    rw [check_of_not_refuses hnone]
    refine congrArg Except.ok (Elements.ext ?_)
    rw [Elements.names_ofList, hnames]

/-! ## Documents behind each other -/

/-- On later lines the check says the same, of a later line. -/
theorem checkLines_map_later (layout : Layout) (n : Nat) (lines : List Line) :
    layout.checkLines (lines.map (Line.later n)) =
      (layout.checkLines lines).mapError (RefusedLine.later n) := by
  induction lines with
  | nil => rfl
  | cons line lines ih =>
    rw [List.map_cons, checkLines, checkLines, Line.later_text, ih]
    cases layout.checkLine line.text with
    | error cause => rfl
    | ok es =>
      cases layout.checkLines lines with
      | error e => rfl
      | ok fs => rfl

/-- **A document behind another** is checked if the other is accepted, and
its rows are counted from the end of the other. -/
theorem check_append_newline (layout : Layout) (d e : String) :
    layout.check (d ++ "\n" ++ e) =
      match layout.check d with
      | .error f => .error f
      | .ok es =>
        match layout.check e with
        | .error f => .error (f.later (d.toList.count '\n' + 1))
        | .ok fs => .ok (es ++ fs) := by
  rw [check, Line.ofDocument_append_newline, checkLines_append, checkLines_map_later, ← check,
    ← check]
  cases layout.check d with
  | error f => rfl
  | ok es =>
    cases layout.check e with
    | error f => rfl
    | ok fs => rfl

/-- **The check stops at the first row that is refused.** It fails exactly
if a row is not blank and refused, and then says the number of the first
such row, the row without the blanks around it and the cause; otherwise it
gives the elements of all rows that are not blank, each once and in order.
So a document behind another changes nothing if the other is refused; else
its elements extend those of the other, or its refusal counts, on a line
that is later by as many rows as the other has. -/
theorem check_rows (layout : Layout) (document : String) :
    ((∃ e, layout.check document = .error e) ↔
      ∃ row ∈ Text.rows document, ∃ cause, layout.Refuses row cause) ∧
      (∀ e, layout.check document = .error e ↔
        ∃ before row behind, Text.rows document = before ++ row :: behind ∧
          (∀ r ∈ before, ∀ c, ¬ layout.Refuses r c) ∧ layout.Refuses row e.cause ∧
          e.line = ⟨before.length + 1, Text.trim row⟩) ∧
      (∀ es, layout.check document = .ok es ↔
        (∀ row ∈ Text.rows document, ∀ cause, ¬ layout.Refuses row cause) ∧
          es.names = ((Text.rows document).flatMap layout.namesIn).eraseDups) ∧
      ∀ behind : String,
        layout.check (document ++ "\n" ++ behind) =
          match layout.check document with
          | .error e => .error e
          | .ok es =>
            match layout.check behind with
            | .error e => .error (e.later (1 + document.toList.count '\n'))
            | .ok fs => .ok (es ++ fs) := by
  refine ⟨?_, fun e => check_eq_error_iff, fun es => check_eq_ok_iff, fun behind => ?_⟩
  · constructor
    · rintro ⟨e, he⟩
      obtain ⟨before, row, behind, hrows, -, hrow, -⟩ := check_eq_error_iff.1 he
      refine ⟨row, ?_, e.cause, hrow⟩
      rw [hrows]
      exact List.mem_append_right before List.mem_cons_self
    · rintro ⟨row, hrow, cause, hcause⟩
      cases hcheck : layout.check document with
      | error e => exact ⟨e, rfl⟩
      | ok es => exact absurd hcause ((check_eq_ok_iff.1 hcheck).1 row hrow cause)
  · rw [check_append_newline, Nat.add_comm 1]

/-- Blank rows count, whatever they end in. -/
example : (ofList ["A"]).check "\r\nshow if A == 1;\r\n\n hide if B == 1;\r\n" =
    .error ⟨⟨4, "hide if B == 1;"⟩, .unknownElements ["B"]⟩ := by decide +kernel

end Layout

end DialogRules
