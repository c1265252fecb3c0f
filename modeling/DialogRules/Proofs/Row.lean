import DialogRules.Proofs.Line

/-!
# Rows

The rows of a document are its pieces between newlines, blank or not, and
there is one way to cut it into them (`Text.rows_eq_iff`). The lines of
the document are the rows that are not blank, each under the number of its
row. So when a document is put behind another, its lines come behind those
of the other and are renumbered by as many rows as the other has
(`Line.ofDocument_append_newline`).
-/

namespace DialogRules

namespace Text

variable {s t row : String} {texts : List String}

/-- The rows of a text: what stands between its newlines, in order. -/
def rows (s : String) : List String := (pieces s.toList).map String.ofList

theorem rows_ne_nil (s : String) : rows s ≠ [] :=
  fun h => pieces_ne_nil s.toList (List.map_eq_nil_iff.1 h)

/-- Pieces have no newline. -/
theorem not_mem_of_mem_pieces {cs p : List Char} (h : p ∈ pieces cs) : '\n' ∉ p := by
  induction cs generalizing p with
  | nil =>
    rw [pieces, List.mem_singleton] at h
    simp [h]
  | cons c cs ih =>
    obtain ⟨q, qs, hq⟩ := List.exists_cons_of_ne_nil (pieces_ne_nil cs)
    rw [hq] at ih
    rw [pieces, hq] at h
    split at h
    · rcases List.mem_cons.1 h with rfl | hp
      · exact List.not_mem_nil
      · exact ih hp
    · rename_i hc
      rw [List.modifyHead_cons] at h
      rcases List.mem_cons.1 h with rfl | hp
      · have hnl : '\n' ≠ c := fun he => hc he.symm
        simp [hnl, ih List.mem_cons_self]
      · exact ih (List.mem_cons_of_mem q hp)

theorem not_mem_of_mem_rows (h : row ∈ rows s) : '\n' ∉ row.toList := by
  obtain ⟨p, hp, rfl⟩ := List.mem_map.1 h
  rw [String.toList_ofList]
  exact not_mem_of_mem_pieces hp

/-- Joining inverts cutting. -/
theorem intercalate_pieces (cs : List Char) :
    "\n".intercalate ((pieces cs).map String.ofList) = String.ofList cs := by
  induction cs with
  | nil => rfl
  | cons c cs ih =>
    obtain ⟨p, ps, hp⟩ := List.exists_cons_of_ne_nil (pieces_ne_nil cs)
    have hcons (ds : List Char) :
        String.ofList (c :: ds) = String.ofList [c] ++ String.ofList ds := by
      rw [← String.ofList_append, List.singleton_append]
    rw [pieces, hcons, ← ih, hp]
    split
    · rename_i hc
      rw [hc, List.map_cons, List.map_cons, String.intercalate_cons_cons]
      rfl
    · rw [List.modifyHead_cons, List.map_cons, hcons, String.intercalate_cons_append, List.map_cons]

theorem intercalate_rows (s : String) : "\n".intercalate (rows s) = s := by
  rw [rows, intercalate_pieces, String.ofList_toList]

/-- Texts without newlines are the rows of what they are joined to. -/
theorem rows_intercalate (hne : texts ≠ []) (h : ∀ t ∈ texts, '\n' ∉ t.toList) :
    rows ("\n".intercalate texts) = texts := by
  have hinv : String.ofList ∘ String.toList = id := funext fun t => String.ofList_toList
  rw [rows, pieces_intercalate hne h, List.map_map, hinv, List.map_id]

/-- **The rows of a text are the one way to cut it at its newlines.** -/
theorem rows_eq_iff :
    rows s = texts ↔
      texts ≠ [] ∧ (∀ t ∈ texts, '\n' ∉ t.toList) ∧ "\n".intercalate texts = s := by
  constructor
  · rintro rfl
    exact ⟨rows_ne_nil s, fun t => not_mem_of_mem_rows, intercalate_rows s⟩
  · rintro ⟨hne, h, rfl⟩
    exact rows_intercalate hne h

theorem rows_append_newline (s t : String) : rows (s ++ "\n" ++ t) = rows s ++ rows t := by
  have hlist : (s ++ "\n" ++ t).toList = s.toList ++ '\n' :: t.toList := by simp
  rw [rows, hlist, pieces_append_newline, List.map_append]
  rfl

/-- There is one more row than there are newlines. -/
theorem length_rows (s : String) : (rows s).length = s.toList.count '\n' + 1 := by
  have hpieces : ∀ cs : List Char, (pieces cs).length = cs.count '\n' + 1 := by
    intro cs
    induction cs with
    | nil => rfl
    | cons c cs ih => by_cases hc : c = '\n' <;> simp [pieces, hc, ih]
  rw [rows, List.length_map, hpieces]

end Text

namespace Line

/-- The line under a number that is greater by `n`. -/
def later (n : Nat) (line : Line) : Line := ⟨line.number + n, line.text⟩

@[simp] theorem later_text (n : Nat) (line : Line) : (line.later n).text = line.text := rfl

/-- The lines of some rows, of which the first has the given number. -/
def ofRows (first : Nat) : List String → List Line
  | [] => []
  | row :: rows =>
    if Text.trim row = "" then ofRows (first + 1) rows
    else ⟨first, Text.trim row⟩ :: ofRows (first + 1) rows

/-- **The lines of a document are those of its rows**, the first of which
has number one. -/
theorem ofDocument_eq_ofRows (document : String) :
    ofDocument document = ofRows 1 (Text.rows document) := by
  have hpieces : ∀ (pieces : List (List Char)) (first : Nat),
      ((pieces.zipIdx first).filterMap fun p =>
          if Text.trim (String.ofList p.1) = "" then none
          else some (Line.mk p.2 (Text.trim (String.ofList p.1)))) =
        ofRows first (pieces.map String.ofList) := by
    intro pieces
    induction pieces with
    | nil => exact fun first => rfl
    | cons p pieces ih =>
      intro first
      by_cases hp : Text.trim (String.ofList p) = "" <;>
        simp [List.zipIdx_cons, ofRows, hp, ih]
  exact hpieces _ 1

theorem ofRows_append (first : Nat) (xs ys : List String) :
    ofRows first (xs ++ ys) = ofRows first xs ++ ofRows (first + xs.length) ys := by
  induction xs generalizing first with
  | nil => rfl
  | cons x xs ih =>
    have hnumber : first + (x :: xs).length = first + 1 + xs.length := by
      rw [List.length_cons]
      omega
    rw [List.cons_append, ofRows, ofRows, ih, hnumber]
    split
    · rfl
    · rfl

/-- Starting at a later number makes every line later. -/
theorem ofRows_add (first n : Nat) (rows : List String) :
    ofRows (first + n) rows = (ofRows first rows).map (later n) := by
  induction rows generalizing first with
  | nil => rfl
  | cons row rows ih =>
    have hnumber : first + n + 1 = first + 1 + n := by omega
    rw [ofRows, ofRows, hnumber, ih]
    split
    · rfl
    · rfl

/-- **A document behind another** has the same lines as on its own, later
by as many rows as the first has. -/
theorem ofDocument_append_newline (d e : String) :
    ofDocument (d ++ "\n" ++ e) =
      ofDocument d ++ (ofDocument e).map (later (d.toList.count '\n' + 1)) := by
  rw [ofDocument_eq_ofRows, Text.rows_append_newline, ofRows_append, ofRows_add,
    Text.length_rows, ← ofDocument_eq_ofRows, ← ofDocument_eq_ofRows]

end Line

end DialogRules
