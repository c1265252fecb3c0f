import DialogRules.Elements

/-!
# Layouts

A dialog layout is known to the rule language by the names of its
elements. Their order does not matter to any check.
-/

namespace DialogRules

/-- The elements of a dialog, by name. -/
structure Layout where
  /-- The names of the elements there are. -/
  known : Elements

namespace Layout

/-- The layout with elements of the given names. -/
def ofList (names : List String) : Layout := ⟨.ofList names⟩

instance : Membership String Layout := ⟨fun layout name => name ∈ layout.known⟩

instance (name : String) (layout : Layout) : Decidable (name ∈ layout) :=
  inferInstanceAs (Decidable (name ∈ layout.known))

/-- The layout with one more element. -/
def insert (layout : Layout) (name : String) : Layout := ⟨layout.known.insert name⟩

/-- The names of the elements, in the order of their code points. -/
def sortedNames (layout : Layout) : List String :=
  layout.known.names.mergeSort fun a b => a ≤ b

/-- The names that no element of the layout has, in order. -/
def unknown (layout : Layout) (es : Elements) : List String :=
  es.names.filter (· ∉ layout)

theorem mem_unknown {layout : Layout} {es : Elements} {name : String} :
    name ∈ layout.unknown es ↔ name ∈ es ∧ name ∉ layout := by
  simp [unknown, Elements.mem_def]

end Layout

end DialogRules
