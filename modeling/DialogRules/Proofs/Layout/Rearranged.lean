import Mathlib.Data.Fin.VecNotation
import Mathlib.Data.List.FinRange
import DialogRules.Proofs.Layout.FirstRefused
import DialogRules.Proofs.RuleSet.Stated

/-!
# Rows in another order

Which rows a document has matters more than where they stand. The check
asks each row on its own, so it accepts the same rows in any order, with
the same elements (`Layout.check_of_perm`). Compiling asks for an order
only among the rows about one action. If these keep theirs
(`Text.KeepsOrder`), then the last of them is the same and every action has
the same condition (`RuleSet.get?_ofDocument_of_keepsOrder`).
-/

namespace DialogRules

/-- The word for the action of a row, if the row is a statement. -/
def Statement.word? (row : String) : Option String := (ofLine? row).map Statement.action

/-! ## Places -/

namespace Text

variable {xs ys : List String}

/-- Whether some rows are those of another list, each moved to a place of
its own, without two statements about one action changing their order. -/
def KeepsOrder (xs ys : List String) : Prop :=
  ∃ σ : Fin xs.length ≃ Fin ys.length,
    (∀ i, ys.get (σ i) = xs.get i) ∧
      ∀ i j, i < j → (Statement.word? (xs.get i)).isSome = true →
        Statement.word? (xs.get i) = Statement.word? (xs.get j) → σ i < σ j

/-- The rows with a property, read off their places. -/
theorem filter_eq_map_places (p : String → Bool) (xs : List String) :
    xs.filter p = ((List.finRange xs.length).filter fun i => p (xs.get i)).map xs.get := by
  have hplaces := List.filter_map (f := xs.get) (p := p) (l := List.finRange xs.length)
  rw [List.map_get_finRange] at hplaces
  exact hplaces

section Moved

variable {σ : Fin xs.length ≃ Fin ys.length} (hrows : ∀ i, ys.get (σ i) = xs.get i)
include hrows

/-- The places of the rows with a property are moved to the places of such
rows. -/
theorem places_perm (p : String → Bool) :
    (((List.finRange xs.length).filter fun i => p (xs.get i)).map σ).Perm
      ((List.finRange ys.length).filter fun j => p (ys.get j)) := by
  have hnodup : (((List.finRange xs.length).filter fun i => p (xs.get i)).map σ).Nodup :=
    ((List.nodup_finRange _).filter _).map σ.injective
  refine (List.perm_ext_iff_of_nodup hnodup ((List.nodup_finRange _).filter _)).2 fun j => ?_
  obtain ⟨i, rfl⟩ := σ.surjective j
  have hrow : p (ys.get (σ i)) = p (xs.get i) := by rw [hrows]
  simpa using hrow.symm

/-- So moving rows leaves the same rows with a property. -/
theorem filter_perm_of_moved (p : String → Bool) : (ys.filter p).Perm (xs.filter p) := by
  have hmoved := (places_perm hrows p).map ys.get
  have hget : ys.get ∘ σ = xs.get := funext hrows
  rw [List.map_map, hget, ← filter_eq_map_places, ← filter_eq_map_places] at hmoved
  exact hmoved.symm

/-- **And in the same order**, if no two of them have changed theirs. -/
theorem filter_eq_of_moved {p : String → Bool}
    (horder : ∀ i j, i < j → p (xs.get i) = true → p (xs.get j) = true → σ i < σ j) :
    ys.filter p = xs.filter p := by
  have hget : ys.get ∘ σ = xs.get := funext hrows
  have hplaces : ((List.finRange xs.length).filter fun i => p (xs.get i)).map σ =
      (List.finRange ys.length).filter fun j => p (ys.get j) := by
    -- both go up, and lists that go up are equal if they have the same members
    refine List.Perm.eq_of_pairwise (fun i j _ _ hij hji => absurd hij (lt_asymm hji)) ?_
      ((List.pairwise_lt_finRange _).filter _) (places_perm hrows p)
    refine List.pairwise_map.2 (List.pairwise_filter.2 ?_)
    exact (List.pairwise_lt_finRange _).imp fun hij hi hj => horder _ _ hij hi hj
  rw [filter_eq_map_places p ys, filter_eq_map_places p xs, ← hplaces, List.map_map, hget]

end Moved

/-- Rows that keep their order are the same rows. -/
theorem KeepsOrder.perm (h : KeepsOrder xs ys) : ys.Perm xs := by
  obtain ⟨σ, hrows, -⟩ := h
  have hall := filter_perm_of_moved hrows fun _ => true
  rwa [List.filter_true, List.filter_true] at hall

/-- And those about one action are the same list. -/
theorem KeepsOrder.filter_eq (h : KeepsOrder xs ys) (w : String) :
    (ys.filter fun row => Statement.word? row = some w) =
      xs.filter fun row => Statement.word? row = some w := by
  obtain ⟨σ, hrows, horder⟩ := h
  refine filter_eq_of_moved hrows fun i j hij hi hj => ?_
  have hi' := of_decide_eq_true hi
  have hj' := of_decide_eq_true hj
  exact horder i j hij (by rw [hi']; rfl) (hi'.trans hj'.symm)

end Text

/-! ## Rules -/

namespace Rule

/-- A row that states a rule has the word for its action. -/
theorem word?_of_ofLine? {row : String} {r : Rule} (h : ofLine? row = some r) :
    Statement.word? row = some r.action.text := by
  obtain ⟨⟨word, condition⟩, hstatement, h⟩ := Option.bind_eq_some_iff.1 h
  obtain ⟨a, ha, h⟩ := Option.bind_eq_some_iff.1 h
  have hword : a.text = word := Vocabulary.ofText?_eq_some_iff.1 ha
  rw [Statement.word?, hstatement, Option.map_some, ← hword]
  split at h
  · cases h
    rfl
  · cases h

/-- The rules for an action are stated by the rows with its word. -/
theorem filter_action_filterMap (a : Action) (rows : List String) :
    ((rows.filterMap ofLine?).filter fun r => r.action = a) =
      (rows.filter fun row => Statement.word? row = some a.text).filterMap ofLine? := by
  rw [List.filter_filterMap, List.filterMap_filter]
  refine List.filterMap_congr fun row _ => ?_
  cases hrow : ofLine? row with
  | none => simp
  | some r =>
    have hiff : r.action = a ↔ r.action.text = a.text :=
      ⟨congrArg Action.text, Vocabulary.text_inj r.action a⟩
    simp [Option.filter, word?_of_ofLine? hrow, hiff]

end Rule

namespace RuleSet

open Text (KeepsOrder)

variable {document other : String}

/-- Rules are stated by the same rows in any order. -/
theorem statedIn_perm (h : (Text.rows other).Perm (Text.rows document)) :
    (Rule.statedIn other).Perm (Rule.statedIn document) := by
  rw [Rule.statedIn_eq, Rule.statedIn_eq]
  exact h.filterMap Rule.ofLine?

theorem mem_actions_ofDocument_iff {a : Action} :
    a ∈ (ofDocument document).actions ↔ ∃ r ∈ Rule.statedIn document, r.action = a := by
  rw [ofDocument_eq_ofRules_statedIn, actions_ofRules, List.mem_eraseDups, List.mem_map]

theorem mem_elements_ofDocument_iff {name : String} :
    name ∈ (ofDocument document).elements ↔
      ∃ r ∈ Rule.statedIn document, ∃ a ∈ r.condition.atoms, a.subject = name := by
  rw [ofDocument_eq_ofRules_statedIn, elements_ofRules, Elements.mem_ofList, Rule.mem_subjectsOf]

/-- **In any order as many rules are left**, one for each action. -/
theorem size_ofDocument_of_perm (h : (Text.rows other).Perm (Text.rows document)) :
    (ofDocument other).size = (ofDocument document).size := by
  have hactions : (ofDocument other).actions.Perm (ofDocument document).actions := by
    refine (List.perm_ext_iff_of_nodup (ofDocument other).nodup (ofDocument document).nodup).2
      fun a => ?_
    change a ∈ (ofDocument other).actions ↔ a ∈ (ofDocument document).actions
    simp only [mem_actions_ofDocument_iff, (statedIn_perm h).mem_iff]
  simpa [size, actions] using hactions.length_eq

/-- **In any order the same elements come up.** -/
theorem mem_elements_ofDocument_of_perm (h : (Text.rows other).Perm (Text.rows document))
    {name : String} :
    name ∈ (ofDocument other).elements ↔ name ∈ (ofDocument document).elements := by
  simp only [mem_elements_ofDocument_iff, (statedIn_perm h).mem_iff]

/-- **The conditions are those of the rows about each action**, in their
order. -/
theorem get?_ofDocument_of_keepsOrder (h : KeepsOrder (Text.rows document) (Text.rows other))
    (a : Action) : (ofDocument other).get? a = (ofDocument document).get? a := by
  simp only [ofDocument_eq_ofRules_statedIn, get?_ofRules, Rule.lastFor?, Rule.statedIn_eq,
    Rule.filter_action_filterMap, h.filter_eq]

end RuleSet

/-! ## The check -/

namespace Layout

open Text (KeepsOrder)

variable {layout : Layout} {document other : String} {es : Elements}

theorem exists_check_eq_ok_iff :
    (∃ es, layout.check document = .ok es) ↔
      ∀ row ∈ Text.rows document, ∀ cause, ¬ layout.Refuses row cause :=
  ⟨fun ⟨_, h⟩ => (check_eq_ok_iff.1 h).1, fun h => ⟨_, check_of_not_refuses h⟩⟩

theorem mem_of_check (h : layout.check document = .ok es) {name : String} :
    name ∈ es ↔ ∃ row ∈ Text.rows document, name ∈ layout.namesIn row := by
  rw [Elements.mem_def, (check_eq_ok_iff.1 h).2, List.mem_eraseDups, List.mem_flatMap]

/-- **The check accepts the same rows in any order**, with the same
elements. -/
theorem check_of_perm (h : (Text.rows other).Perm (Text.rows document)) :
    ((∃ es, layout.check other = .ok es) ↔ ∃ es, layout.check document = .ok es) ∧
      ∀ es fs, layout.check document = .ok es → layout.check other = .ok fs →
        ∀ name, name ∈ fs ↔ name ∈ es := by
  refine ⟨?_, fun es fs hes hfs name => ?_⟩
  · simp only [exists_check_eq_ok_iff, h.mem_iff]
  · simp only [mem_of_check hes, mem_of_check hfs, h.mem_iff]

/-- **Rows may be put in another order.** If the rows about each action stay
in order, every action gets the same condition, and there are as many rules
and the same elements. To the check no order matters at all: whatever a
layout has, it accepts the same rows, with the same elements. -/
theorem rows_rearranged (document other : String) :
    (KeepsOrder (Text.rows document) (Text.rows other) →
      (∀ a, (RuleSet.ofDocument other).get? a = (RuleSet.ofDocument document).get? a) ∧
        (RuleSet.ofDocument other).size = (RuleSet.ofDocument document).size ∧
        ∀ name, name ∈ (RuleSet.ofDocument other).elements ↔
          name ∈ (RuleSet.ofDocument document).elements) ∧
    ((Text.rows other).Perm (Text.rows document) → ∀ layout : Layout,
      ((∃ es, layout.check other = .ok es) ↔ ∃ es, layout.check document = .ok es) ∧
        ∀ es fs, layout.check document = .ok es → layout.check other = .ok fs →
          ∀ name, name ∈ fs ↔ name ∈ es) := by
  refine ⟨fun h => ⟨RuleSet.get?_ofDocument_of_keepsOrder h, ?_, fun name => ?_⟩,
    fun h layout => check_of_perm h⟩
  · exact RuleSet.size_ofDocument_of_perm h.perm
  · exact RuleSet.mem_elements_ofDocument_of_perm h.perm

/-- The last row comes first and the blank one last. The two rows about one
action are moved, but the later one still counts. -/
theorem rows_rearranged_blank_last :
    KeepsOrder (Text.rows "show if A == 1;\n\nshow if B == 2;\ncheck if C == 3;")
        (Text.rows "check if C == 3;\nshow if A == 1;\nshow if B == 2;\n") ∧
      (RuleSet.ofDocument "check if C == 3;\nshow if A == 1;\nshow if B == 2;\n").get? .reveal =
        some (.atom ⟨"B", "==", "2"⟩) ∧
      (RuleSet.ofDocument "check if C == 3;\nshow if A == 1;\nshow if B == 2;\n").size = 2 ∧
      "A" ∈ (RuleSet.ofDocument "check if C == 3;\nshow if A == 1;\nshow if B == 2;\n").elements ∧
      (∃ es, (ofList ["C", "B", "A"]).check
        "check if C == 3;\nshow if A == 1;\nshow if B == 2;\n" = .ok es) ∧
      ¬ ∃ es, (ofList ["A", "B"]).check
        "check if C == 3;\nshow if A == 1;\nshow if B == 2;\n" = .ok es := by
  have hrows : Text.rows "show if A == 1;\n\nshow if B == 2;\ncheck if C == 3;" =
      ["show if A == 1;", "", "show if B == 2;", "check if C == 3;"] := by
    decide +kernel
  have hother : Text.rows "check if C == 3;\nshow if A == 1;\nshow if B == 2;\n" =
      ["check if C == 3;", "show if A == 1;", "show if B == 2;", ""] := by
    decide +kernel
  have hkeeps : KeepsOrder (Text.rows "show if A == 1;\n\nshow if B == 2;\ncheck if C == 3;")
      (Text.rows "check if C == 3;\nshow if A == 1;\nshow if B == 2;\n") := by
    rw [hrows, hother]
    exact ⟨⟨_, _, (by decide : ∀ i : Fin 4, ![(3 : Fin 4), 0, 2, 1] (![1, 3, 2, 0] i) = i),
      (by decide : ∀ j : Fin 4, ![(1 : Fin 4), 3, 2, 0] (![3, 0, 2, 1] j) = j)⟩,
      by decide +kernel, by decide +kernel⟩
  obtain ⟨hcompiled, hchecked⟩ := rows_rearranged
    "show if A == 1;\n\nshow if B == 2;\ncheck if C == 3;"
    "check if C == 3;\nshow if A == 1;\nshow if B == 2;\n"
  obtain ⟨hget, hsize, helements⟩ := hcompiled hkeeps
  have haccepted := fun layout => (hchecked hkeeps.perm layout).1
  refine ⟨hkeeps, ?_, ?_, ?_, ?_, ?_⟩
  · rw [hget]
    decide +kernel
  · rw [hsize]
    decide +kernel
  · rw [helements]
    decide +kernel
  · exact (haccepted _).2 ⟨Elements.ofList ["A", "B", "C"], by decide +kernel⟩
  · rw [haccepted]
    rintro ⟨es, hes⟩
    have hrefused : (ofList ["A", "B"]).check
        "show if A == 1;\n\nshow if B == 2;\ncheck if C == 3;" =
          .error ⟨⟨4, "check if C == 3;"⟩, .unknownElements ["C"]⟩ := by
      decide +kernel
    rw [hrefused] at hes
    cases hes

end Layout

end DialogRules
