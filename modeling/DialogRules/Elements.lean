/-!
# Element names

`Elements` holds the names of the elements that something refers to: each
name once, in the order of first reference. Naming an element again
changes nothing, so a set of names is what its list of references leaves
after the repetitions are struck out.
-/

namespace DialogRules

/-- Distinct element names, in the order of their first reference. -/
structure Elements where
  /-- The names, in order. -/
  names : List String
  /-- No name occurs twice. -/
  nodup : names.Nodup
deriving DecidableEq

namespace Elements

/-- No names at all. -/
def empty : Elements := ⟨[], List.nodup_nil⟩

instance : EmptyCollection Elements := ⟨empty⟩

instance : Inhabited Elements := ⟨∅⟩

instance : Membership String Elements := ⟨fun es name => name ∈ es.names⟩

instance (name : String) (es : Elements) : Decidable (name ∈ es) :=
  inferInstanceAs (Decidable (name ∈ es.names))

@[ext]
theorem ext {es fs : Elements} (h : es.names = fs.names) : es = fs := by
  cases es; cases fs; cases h; rfl

/-- How many names there are. -/
def size (es : Elements) : Nat := es.names.length

/-- Whether there is no name. -/
def isEmpty (es : Elements) : Bool := es.names.isEmpty

/-- The names with one more, which goes last unless it is already
there. -/
def insert (es : Elements) (name : String) : Elements :=
  if h : name ∈ es then es
  else
    { names := es.names ++ [name]
      nodup := by
        refine List.nodup_append.2 ⟨es.nodup, by simp, fun a ha b hb hab => h ?_⟩
        rw [List.mem_singleton.1 hb] at hab
        exact hab ▸ ha }

/-- The names with those of a list, in turn. -/
def insertAll (es : Elements) (names : List String) : Elements :=
  names.foldl insert es

/-- The distinct names of a list, in the order of their first
occurrence. -/
def ofList (names : List String) : Elements :=
  insertAll ∅ names

/-- The names of one set and then the further names of another. -/
def extend (es fs : Elements) : Elements :=
  es.insertAll fs.names

instance : Append Elements := ⟨extend⟩

theorem mem_def {name : String} {es : Elements} : name ∈ es ↔ name ∈ es.names := Iff.rfl

theorem insert_of_mem {es : Elements} {name : String} (h : name ∈ es) : es.insert name = es :=
  dif_pos h

theorem names_insert_of_not_mem {es : Elements} {name : String} (h : name ∉ es) :
    (es.insert name).names = es.names ++ [name] := by
  rw [insert, dif_neg h]

theorem mem_insert {es : Elements} {name other : String} :
    other ∈ es.insert name ↔ other ∈ es ∨ other = name := by
  by_cases h : name ∈ es
  · rw [insert_of_mem h]
    exact ⟨Or.inl, fun ho => ho.elim id fun he => he ▸ h⟩
  · simp [mem_def, names_insert_of_not_mem h]

theorem insertAll_append (es : Elements) (ns ms : List String) :
    es.insertAll (ns ++ ms) = (es.insertAll ns).insertAll ms :=
  List.foldl_append

theorem mem_insertAll {es : Elements} {names : List String} {name : String} :
    name ∈ es.insertAll names ↔ name ∈ es ∨ name ∈ names := by
  induction names generalizing es with
  | nil => simp [insertAll]
  | cons n ns ih =>
    rw [insertAll, List.foldl_cons, ← insertAll, ih, mem_insert, List.mem_cons, or_assoc]

/-- **A set of names holds what it was built from.** -/
theorem mem_ofList {names : List String} {name : String} : name ∈ ofList names ↔ name ∈ names := by
  rw [ofList, mem_insertAll]
  exact ⟨fun h => h.elim (fun h => by cases h) id, Or.inr⟩

end Elements

end DialogRules
