import DialogRules.Line
import DialogRules.Proofs.Statement

/-!
# Lines of joined texts

A text is a line as it stands if it has no newline, no blank at either end
and is not empty (`Text.IsLine`). Texts of this kind that are joined by
newlines are the lines of the whole again (`Line.map_text_intercalate`).
-/

namespace DialogRules

namespace Text

/-- Whether a text is a line as it stands. -/
structure IsLine (s : String) : Prop where
  /-- It has no newline. -/
  unbroken : '\n' ∉ s.toList
  /-- No blank is at either end. -/
  trimmed : IsTrimmed s.toList
  /-- It is not empty. -/
  nonempty : s ≠ ""

/-- A text without blanks is a line. -/
theorem isLine_of_isBlank {s : String} (h : ∀ c ∈ s.toList, isBlank c = false) (hne : s ≠ "") :
    IsLine s where
  unbroken hn := absurd (h '\n' hn) (by decide)
  trimmed :=
    { head := fun c hc => h c (List.mem_of_mem_head? hc)
      last := fun c hc => h c (List.mem_of_getLast? hc) }
  nonempty := hne

/-- Between two lines anything may stand that is not broken. -/
theorem IsLine.append {s mid t : String} (h : IsLine s) (h' : IsLine t)
    (hmid : '\n' ∉ mid.toList) : IsLine (s ++ mid ++ t) := by
  have hs : s.toList ≠ [] := Text.toList_ne_nil.2 h.nonempty
  have ht : t.toList ≠ [] := Text.toList_ne_nil.2 h'.nonempty
  obtain ⟨c, hc⟩ := Option.ne_none_iff_exists'.1 (mt List.head?_eq_none_iff.1 hs)
  obtain ⟨d, hd⟩ := Option.ne_none_iff_exists'.1 (mt List.getLast?_eq_none_iff.1 ht)
  refine ⟨by simp [h.unbroken, h'.unbroken, hmid], ⟨?_, ?_⟩, ?_⟩
  · rw [String.toList_append, String.toList_append, List.append_assoc, List.head?_append, hc,
      Option.some_or, ← hc]
    exact h.trimmed.head
  · rw [String.toList_append, List.getLast?_append, hd, Option.some_or, ← hd]
    exact h'.trimmed.last
  · exact Text.toList_ne_nil.1 (by simp [hs])

/-- Where there are no blanks around a text, none are dropped. -/
theorem trim_eq_self {s : String} (h : IsTrimmed s.toList) : trim s = s := by
  have hnil : AreBlanks [] := by simp [AreBlanks]
  have hstart : trimStart s.toList = s.toList := trimStart_append hnil h.head
  have hend : trimEnd s.toList = s.toList := by
    have htrim := trimEnd_append hnil h.last
    rwa [List.append_nil] at htrim
  rw [trim, hstart, hend, String.ofList_toList]

/-- No blanks are left around a text once they are dropped. -/
theorem isTrimmed_trim (s : String) : IsTrimmed (trim s).toList := by
  rw [trim, String.toList_ofList]
  exact ⟨head?_trimEnd (head?_trimStart s.toList), getLast?_trimEnd (trimStart s.toList)⟩

/-- So none are dropped a second time. -/
theorem trim_trim (s : String) : trim (trim s) = trim s :=
  trim_eq_self (isTrimmed_trim s)

/-- A text that is not broken is one piece. -/
theorem pieces_of_not_mem {cs : List Char} (h : '\n' ∉ cs) : pieces cs = [cs] := by
  induction cs with
  | nil => rfl
  | cons c cs ih =>
    obtain ⟨hc, hcs⟩ := not_or.1 (fun hmem => h (List.mem_cons.2 hmem))
    have hne : c ≠ '\n' := fun he => hc he.symm
    rw [pieces, if_neg hne, ih hcs]
    rfl

/-- **Cutting inverts joining.** Unbroken texts that are joined by
newlines are the pieces of the whole. -/
theorem pieces_intercalate {texts : List String} (hne : texts ≠ [])
    (h : ∀ t ∈ texts, '\n' ∉ t.toList) :
    pieces ("\n".intercalate texts).toList = texts.map String.toList := by
  induction texts with
  | nil => exact absurd rfl hne
  | cons t texts ih =>
    obtain ⟨ht, htexts⟩ := List.forall_mem_cons.1 h
    cases texts with
    | nil => simpa using pieces_of_not_mem ht
    | cons u texts =>
      have hcons : (u :: texts) ≠ [] := List.cons_ne_nil u texts
      have hjoin : ("\n".intercalate (t :: u :: texts)).toList =
          t.toList ++ '\n' :: ("\n".intercalate (u :: texts)).toList := by
        rw [String.intercalate_cons_of_ne_nil hcons]
        simp
      rw [hjoin, pieces_append_newline, pieces_of_not_mem ht, ih hcons htexts]
      rfl

end Text

/-- The blanks around a line do not matter to a statement. -/
theorem Statement.ofLine?_trim (line : String) : ofLine? (Text.trim line) = ofLine? line := by
  rw [ofLine?, ofLine?, Text.trim_trim]

namespace Line

/-- **The texts of the lines** are the trimmed pieces that are not
blank. -/
theorem map_text_ofDocument (document : String) :
    (ofDocument document).map text =
      ((Text.pieces document.toList).map fun piece => Text.trim (String.ofList piece)).filter
        (· ≠ "") := by
  -- the texts do not depend on the number that the first piece gets
  have hnumber : ∀ (pieces : List (List Char)) (n : Nat),
      ((pieces.zipIdx n).filterMap fun p =>
          if Text.trim (String.ofList p.1) = "" then none
          else some (Line.mk p.2 (Text.trim (String.ofList p.1)))).map text =
        (pieces.map fun piece => Text.trim (String.ofList piece)).filter (· ≠ "") := by
    intro pieces
    induction pieces with
    | nil => exact fun n => rfl
    | cons p pieces ih =>
      intro n
      by_cases hp : Text.trim (String.ofList p) = "" <;>
        simp [List.zipIdx_cons, hp, ih]
  exact hnumber _ 1

/-- **Lines that are joined by newlines are the lines of the whole.** -/
theorem map_text_intercalate {texts : List String}
    (h : ∀ t ∈ texts, Text.IsLine t) :
    (ofDocument ("\n".intercalate texts)).map text = texts := by
  rw [map_text_ofDocument]
  cases texts with
  | nil => rfl
  | cons t texts =>
    rw [Text.pieces_intercalate (List.cons_ne_nil t texts) fun u hu => (h u hu).unbroken,
      List.map_map]
    have htrim : ∀ u ∈ t :: texts,
        ((fun piece => Text.trim (String.ofList piece)) ∘ String.toList) u = u := by
      intro u hu
      rw [Function.comp_apply, String.ofList_toList]
      exact Text.trim_eq_self (h u hu).trimmed
    rw [List.map_congr_left htrim, List.map_id', List.filter_eq_self]
    exact fun u hu => by simpa using (h u hu).nonempty

end Line

end DialogRules
