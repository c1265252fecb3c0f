import DialogRules.Elements
import DialogRules.Proofs.Occurrence

/-!
# Elements by first occurrence

A set of element names is the list of its references without the
repetitions, each name at the place of its first reference
(`names_ofList`). Extending is associative, so the names of many
conditions may be collected in any grouping (`extend_assoc`).
-/

namespace DialogRules

namespace Elements

@[simp] theorem names_empty : (∅ : Elements).names = [] := rfl

@[simp] theorem not_mem_empty {name : String} : name ∉ (∅ : Elements) := List.not_mem_nil

theorem names_insert (es : Elements) (name : String) :
    (es.insert name).names = addLast es.names name := by
  by_cases h : name ∈ es
  · rw [insert_of_mem h, addLast_of_mem h]
  · rw [names_insert_of_not_mem h, addLast_of_not_mem h]

theorem names_insertAll_eq_foldl (es : Elements) (names : List String) :
    (es.insertAll names).names = names.foldl addLast es.names := by
  induction names generalizing es with
  | nil => rfl
  | cons n ns ih => exact (ih (es.insert n)).trans (by rw [names_insert, List.foldl_cons])

/-- **What is new goes last, once.** The names put in keep the order of
their first occurrence, behind those that were there. -/
theorem names_insertAll (es : Elements) (names : List String) :
    (es.insertAll names).names = es.names ++ (names.filter (· ∉ es)).eraseDups := by
  rw [names_insertAll_eq_foldl, foldl_addLast]
  rfl

/-- **The names of a list are its first occurrences**, in order. -/
theorem names_ofList (names : List String) : (ofList names).names = names.eraseDups := by
  rw [ofList, names_insertAll_eq_foldl, names_empty, foldl_addLast_nil]

/-- A set of names is the set of the names it lists. -/
theorem ofList_names (es : Elements) : ofList es.names = es :=
  ext ((names_ofList es.names).trans (eraseDups_eq_self es.nodup))

/-- Naming again what is there changes nothing. -/
theorem insertAll_of_mem {es : Elements} {names : List String} (h : ∀ name ∈ names, name ∈ es) :
    es.insertAll names = es := by
  induction names with
  | nil => rfl
  | cons n ns ih =>
    rw [insertAll, List.foldl_cons, insert_of_mem (h n List.mem_cons_self)]
    exact ih fun name hname => h name (List.mem_cons_of_mem n hname)

/-! ## Extending -/

theorem append_def (es fs : Elements) : es ++ fs = es.insertAll fs.names := rfl

/-- One name more is a set of one name more. -/
theorem insert_eq_append (es : Elements) (name : String) : es.insert name = es ++ ofList [name] :=
  rfl

theorem names_append (es fs : Elements) : (es ++ fs).names = fs.names.foldl addLast es.names := by
  rw [append_def, names_insertAll_eq_foldl]

/-- Naming more elements and then extending is extending by more names. -/
theorem append_insertAll (es fs : Elements) (names : List String) :
    es ++ fs.insertAll names = (es ++ fs).insertAll names := by
  refine ext ?_
  rw [names_append, names_insertAll_eq_foldl, names_insertAll_eq_foldl, names_append,
    foldl_addLast_assoc]

/-- **Extending is associative.** -/
theorem extend_assoc (es fs gs : Elements) : es ++ fs ++ gs = es ++ (fs ++ gs) :=
  (append_insertAll es fs gs.names).symm

@[simp] theorem append_empty (es : Elements) : es ++ ∅ = es := rfl

@[simp] theorem empty_append (es : Elements) : ∅ ++ es = es := ofList_names es

@[simp] theorem append_self (es : Elements) : es ++ es = es := insertAll_of_mem fun _ h => h

/-- Two lists of references after each other name what the first names
and then what the second adds. -/
theorem ofList_append (ns ms : List String) : ofList (ns ++ ms) = ofList ns ++ ofList ms := by
  have h := append_insertAll (ofList ns) ∅ ms
  rw [append_empty] at h
  rw [ofList, insertAll_append]
  exact h.symm

theorem mem_append {es fs : Elements} {name : String} :
    name ∈ es ++ fs ↔ name ∈ es ∨ name ∈ fs :=
  mem_insertAll

end Elements

end DialogRules
