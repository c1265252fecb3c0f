/-!
# Pieces

A text is cut at its newlines, and the newlines are dropped. Cutting is a
homomorphism: two texts joined by a newline have the pieces of the first
and then those of the second (`pieces_append_newline`).
-/

namespace DialogRules

namespace Text

/-- The pieces of a text between its newlines; there is one more of them
than of newlines. -/
def pieces : List Char → List (List Char)
  | [] => [[]]
  | c :: rest =>
    if c = '\n' then [] :: pieces rest
    else (pieces rest).modifyHead (c :: ·)

theorem pieces_ne_nil (cs : List Char) : pieces cs ≠ [] := by
  induction cs with
  | nil => simp [pieces]
  | cons c cs ih =>
    rw [pieces]
    split
    · simp
    · simpa using ih

/-- **Cutting is a homomorphism**: a newline between two texts cuts them
apart and changes nothing else. -/
theorem pieces_append_newline (cs ds : List Char) :
    pieces (cs ++ '\n' :: ds) = pieces cs ++ pieces ds := by
  induction cs with
  | nil => simp [pieces]
  | cons c cs ih =>
    obtain ⟨p, ps, hp⟩ := List.exists_cons_of_ne_nil (pieces_ne_nil cs)
    by_cases hc : c = '\n' <;> simp [pieces, hc, ih, hp]

end Text

end DialogRules
