import DialogRules.Proofs.Lexeme
import DialogRules.Text.Balance

/-!
# Counting parentheses

A text moves the number of open parentheses from one value to another, or
closes one that is not open (`depthAfter?`). A text is balanced if it
moves zero to zero, and the texts of a condition's lexemes, without the
blanks between them, move the number as the whole text does.
-/

namespace DialogRules

namespace Text

/-- How many parentheses are open behind a text with `depth` open before
it, unless it closes one that is not open. -/
def depthAfter? : Nat → List Char → Option Nat
  | depth, [] => some depth
  | depth, '(' :: cs => depthAfter? (depth + 1) cs
  | 0, ')' :: _ => none
  | depth + 1, ')' :: cs => depthAfter? depth cs
  | depth, _ :: cs => depthAfter? depth cs

/-- Whether a text has no parenthesis. -/
def HasNoParens (cs : List Char) : Prop := ∀ c ∈ cs, c ≠ '(' ∧ c ≠ ')'

instance (cs : List Char) : Decidable (HasNoParens cs) :=
  List.decidableBAll (fun c => c ≠ '(' ∧ c ≠ ')') cs

theorem HasNoParens.append {cs ds : List Char} (h : HasNoParens cs) (h' : HasNoParens ds) :
    HasNoParens (cs ++ ds) :=
  List.forall_mem_append.2 ⟨h, h'⟩

theorem depthAfter?_cons_of_ne {c : Char} (hc : c ≠ '(' ∧ c ≠ ')') (depth : Nat)
    (cs : List Char) : depthAfter? depth (c :: cs) = depthAfter? depth cs := by
  rw [depthAfter?]
  · exact hc.1
  · exact fun _ => hc.2
  · exact fun _ _ => hc.2

theorem isBalancedFrom_iff {depth : Nat} {cs : List Char} :
    isBalancedFrom depth cs = true ↔ depthAfter? depth cs = some 0 := by
  fun_induction isBalancedFrom depth cs with
  | case1 depth => simp [depthAfter?]
  | case2 depth cs ih => rw [ih, depthAfter?]
  | case3 cs => simp [depthAfter?]
  | case4 depth cs ih => rw [ih, depthAfter?]
  | case5 depth c cs hopen hzero hsucc ih =>
    have hclose : c ≠ ')' := by
      cases depth with
      | zero => exact hzero rfl
      | succ n => exact hsucc n rfl
    rw [ih, depthAfter?_cons_of_ne ⟨hopen, hclose⟩]

theorem depthAfter?_append (depth : Nat) (cs ds : List Char) :
    depthAfter? depth (cs ++ ds) = (depthAfter? depth cs).bind fun d => depthAfter? d ds := by
  induction cs generalizing depth with
  | nil => rfl
  | cons c cs ih =>
    rw [List.cons_append]
    by_cases hopen : c = '('
    · subst hopen
      exact ih (depth + 1)
    · by_cases hclose : c = ')'
      · subst hclose
        cases depth with
        | zero => rfl
        | succ n => exact ih n
      · rw [depthAfter?_cons_of_ne ⟨hopen, hclose⟩, depthAfter?_cons_of_ne ⟨hopen, hclose⟩, ih]

/-- A text without parentheses opens and closes nothing. -/
theorem depthAfter?_of_hasNoParens {cs : List Char} (h : HasNoParens cs) (depth : Nat) :
    depthAfter? depth cs = some depth := by
  induction cs with
  | nil => rfl
  | cons c cs ih =>
    obtain ⟨hc, hcs⟩ := List.forall_mem_cons.1 h
    rw [depthAfter?_cons_of_ne hc, ih hcs]

/-- So it is balanced. -/
theorem isBalanced_of_hasNoParens {s : String} (h : HasNoParens s.toList) : isBalanced s = true :=
  isBalancedFrom_iff.2 (depthAfter?_of_hasNoParens h 0)

/-- Blanks open and close nothing. -/
theorem depthAfter?_filter (depth : Nat) (cs : List Char) :
    depthAfter? depth (cs.filter fun c => !isBlank c) = depthAfter? depth cs := by
  induction cs generalizing depth with
  | nil => rfl
  | cons c cs ih =>
    by_cases hc : isBlank c = true
    · have hne : c ≠ '(' ∧ c ≠ ')' := by
        constructor <;> rintro rfl <;> exact absurd hc (by decide)
      rw [List.filter_cons_of_neg (by simp [hc]), ih, depthAfter?_cons_of_ne hne]
    · have happ : ∀ ds : List Char, c :: ds = [c] ++ ds := fun _ => rfl
      rw [List.filter_cons_of_pos (by simp [hc]), happ, happ cs, depthAfter?_append,
        depthAfter?_append]
      simp only [ih]

theorem hasNoParens_of_isWord {s : String} (h : isWord s = true) : HasNoParens s.toList := by
  intro c hc
  simp only [isWord, Bool.and_eq_true, List.all_eq_true] at h
  have hword := h.2 c hc
  constructor <;> rintro rfl <;> exact absurd hword (by decide)

/-- **A text is balanced as its lexemes are.** -/
theorem isBalanced_iff {s : String} :
    isBalanced s = true ↔
      depthAfter? 0 ((Lexeme.ofString s).flatMap fun l => l.text.toList) = some 0 := by
  rw [isBalanced, isBalancedFrom_iff, Lexeme.ofString, Lexeme.flatMap_text_ofChars,
    depthAfter?_filter]

end Text

end DialogRules
