import DialogRules.Proofs.Elements
import Mathlib.Data.Finset.Dedup
import Mathlib.Data.Finset.Insert

/-!
# Elements kept twice

To look a name up in a long list takes a walk through it, so names are kept
a second time, in a set. A `Registry` is a list and a set with nothing to
tie the two: a call asks the set whether a name is new and then changes
both. What ties them is that a registry starts out empty, and that each
call keeps it a registry of the names of some `Elements`
(`register_ofElements`, `extend_ofElements`). So after any calls it is that
of the names supplied (`History.run_eq`, `History.elements_eq`), and all that
holds of `Elements` holds of it.
-/

namespace DialogRules

/-- Names in a list, for their order, and in a set, to look them up. -/
structure Registry where
  /-- The names, in order. -/
  names : List String
  /-- The names that have been seen. -/
  seen : Finset String
deriving DecidableEq

namespace Registry

/-- No names at all. -/
def empty : Registry := ⟨[], ∅⟩

/-- Whether a name has been seen. -/
def contains (r : Registry) (name : String) : Bool := decide (name ∈ r.seen)

/-- Whether a name is new, and the registry with it. -/
def register (r : Registry) (name : String) : Bool × Registry :=
  if r.contains name then (false, r) else (true, ⟨r.names ++ [name], insert name r.seen⟩)

/-- The registry with the names of a list, in turn. -/
def registerAll (r : Registry) (names : List String) : Registry :=
  names.foldl (fun r name => (r.register name).2) r

/-- The registry of a list of names. -/
def ofList (names : List String) : Registry := empty.registerAll names

/-- The names of one registry and then those of another. -/
def extend (r s : Registry) : Registry := r.registerAll s.names

/-- Element names, kept twice. -/
def ofElements (es : Elements) : Registry := ⟨es.names, es.names.toFinset⟩

/-! ## What the calls keep -/

section OfElements

variable (es fs : Elements)

@[simp] theorem names_ofElements : (ofElements es).names = es.names := rfl

theorem mem_seen_ofElements {name : String} : name ∈ (ofElements es).seen ↔ name ∈ es.names :=
  List.mem_toFinset

theorem contains_ofElements (name : String) : (ofElements es).contains name = decide (name ∈ es) :=
  decide_eq_decide.2 (mem_seen_ofElements es)

/-- The list alone says what the registry is. -/
theorem ofElements_inj {es fs : Elements} : ofElements es = ofElements fs ↔ es = fs :=
  ⟨fun h => Elements.ext (congrArg names h), congrArg ofElements⟩

theorem ofElements_empty : ofElements ∅ = empty := rfl

/-- **A call keeps the list and the set in step**: what it puts in is new to
both, or neither is touched. -/
theorem register_ofElements (name : String) :
    (ofElements es).register name = (decide (name ∉ es), ofElements (es.insert name)) := by
  rw [register, contains_ofElements]
  by_cases h : name ∈ es
  · rw [if_pos (decide_eq_true h), decide_eq_false (not_not_intro h), Elements.insert_of_mem h]
  · have hseen : insert name es.names.toFinset = (es.names ++ [name]).toFinset := by
      ext other
      rw [Finset.mem_insert, List.mem_toFinset, List.mem_toFinset, List.mem_append,
        List.mem_singleton, or_comm]
    rw [if_neg (mt of_decide_eq_true h), decide_eq_true h]
    simp only [ofElements, Elements.names_insert_of_not_mem h, hseen]

/-- And so does a list of them. -/
theorem registerAll_ofElements (names : List String) :
    (ofElements es).registerAll names = ofElements (es.insertAll names) := by
  induction names generalizing es with
  | nil => rfl
  | cons n ns ih =>
    rw [registerAll, List.foldl_cons, register_ofElements]
    exact ih (es.insert n)

theorem ofList_eq (names : List String) : ofList names = ofElements (.ofList names) :=
  registerAll_ofElements ∅ names

theorem extend_ofElements : (ofElements es).extend (ofElements fs) = ofElements (es ++ fs) :=
  registerAll_ofElements es fs.names

end OfElements

/-! ## Histories -/

/-- The calls that a registry has come from. One that has been put into
another has come from calls of its own. -/
inductive History where
  | new
  | ofList (names : List String)
  | register (h : History) (name : String)
  | extend (h other : History)
deriving DecidableEq

namespace History

/-- The registry after the calls. -/
def run : History → Registry
  | new => .empty
  | ofList names => .ofList names
  | register h name => (h.run.register name).2
  | extend h other => h.run.extend other.run

/-- The same calls on element names that are kept once. -/
def elements : History → Elements
  | new => ∅
  | ofList names => .ofList names
  | register h name => h.elements.insert name
  | extend h other => h.elements ++ other.elements

/-- All names that the calls have supplied, in order and with repetitions.
A registry that is put into another supplies the names it holds. -/
def supplied : History → List String
  | new => []
  | ofList names => names
  | register h name => h.supplied ++ [name]
  | extend h other => h.supplied ++ other.run.names

/-- **A registry is its elements, kept twice**, whatever the calls were. -/
theorem run_eq (h : History) : h.run = ofElements h.elements := by
  induction h with
  | new => rfl
  | ofList names => exact ofList_eq names
  | register h name ih => rw [run, ih, register_ofElements, elements]
  | extend h other ih ihOther => rw [run, ih, ihOther, extend_ofElements, elements]

/-- **And its elements are the names supplied.** -/
theorem elements_eq (h : History) : h.elements = .ofList h.supplied := by
  induction h with
  | new => rfl
  | ofList names => rfl
  | register h name ih =>
    rw [elements, supplied, Elements.ofList_append, ih]
    exact Elements.insert_eq_append _ name
  | extend h other ih _ =>
    rw [elements, supplied, Elements.ofList_append, run_eq other, names_ofElements,
      Elements.ofList_names, ih]

theorem mem_elements_iff {h : History} {name : String} :
    name ∈ h.elements ↔ name ∈ h.supplied := by
  rw [elements_eq, Elements.mem_ofList]

theorem names_run (h : History) : h.run.names = h.supplied.eraseDups := by
  rw [run_eq, names_ofElements, elements_eq, Elements.names_ofList]

theorem nodup_names_run (h : History) : h.run.names.Nodup := by
  rw [run_eq]
  exact h.elements.nodup

theorem seen_run (h : History) : h.run.seen = h.run.names.toFinset := by
  rw [run_eq]
  rfl

theorem contains_run_iff {h : History} {name : String} :
    h.run.contains name = true ↔ name ∈ h.supplied := by
  rw [run_eq, contains_ofElements, decide_eq_true_iff, mem_elements_iff]

theorem register_run_iff {h : History} {name : String} :
    (h.run.register name).1 = true ↔ name ∉ h.supplied := by
  rw [run_eq, register_ofElements, decide_eq_true_iff, not_congr mem_elements_iff]

theorem register_run_of_mem {h : History} {name : String} (hname : name ∈ h.supplied) :
    h.run.register name = (false, h.run) :=
  if_pos (contains_run_iff.2 hname)

/-- The set is never what two registries differ in. -/
theorem run_inj {g h : History} : g.run = h.run ↔ g.run.names = h.run.names := by
  rw [run_eq g, run_eq h, ofElements_inj]
  exact Elements.ext_iff

theorem extend_assoc (f g h : History) :
    (f.run.extend g.run).extend h.run = f.run.extend (g.run.extend h.run) := by
  simp only [run_eq, extend_ofElements, Elements.extend_assoc]

theorem extend_empty (h : History) : h.run.extend empty = h.run := rfl

theorem empty_extend (h : History) : empty.extend h.run = h.run := by
  rw [run_eq, ← ofElements_empty, extend_ofElements, Elements.empty_append]

theorem extend_self (h : History) : h.run.extend h.run = h.run := by
  rw [run_eq, extend_ofElements, Elements.append_self]

/-- **What holds of a registry after any calls.** Its list is the first
occurrences of the names supplied, without repetition, and its set is the
set of that list. So it is the same elements that the calls give where names
are kept once. It contains what was supplied. A call says whether its name
is new, and leaves the registry as it is if not. Two registries are equal if
their lists are. Extending is associative, the empty registry is neutral,
and a registry adds nothing to itself. -/
theorem run_invariant (h : History) :
    h.run.names = h.supplied.eraseDups ∧
    h.run.names.Nodup ∧ h.run.seen = h.run.names.toFinset ∧ h.run = ofElements h.elements ∧
    (∀ name, h.run.contains name = true ↔ name ∈ h.supplied) ∧
    (∀ name, ((h.run.register name).1 = true ↔ name ∉ h.supplied) ∧
      (name ∈ h.supplied → h.run.register name = (false, h.run))) ∧
    (∀ g : History, h.run = g.run ↔ h.run.names = g.run.names) ∧
    (∀ f g : History, (f.run.extend g.run).extend h.run = f.run.extend (g.run.extend h.run)) ∧
    h.run.extend empty = h.run ∧ empty.extend h.run = h.run ∧ h.run.extend h.run = h.run := by
  have hregister (name : String) : ((h.run.register name).1 = true ↔ name ∉ h.supplied) ∧
      (name ∈ h.supplied → h.run.register name = (false, h.run)) :=
    ⟨register_run_iff, register_run_of_mem⟩
  exact ⟨names_run h, nodup_names_run h, seen_run h, run_eq h, fun _ => contains_run_iff,
    hregister, fun _ => run_inj, fun f g => extend_assoc f g h, extend_empty h, empty_extend h,
    extend_self h⟩

/-- Three elements, all named more than once. -/
def repeated : History :=
  .extend (.register (.ofList ["C", "A", "C"]) "B") (.register (.ofList ["B"]) "A")

/-- The names are in the order of first reference, and naming one of them
again has no effect. -/
theorem register_repeated :
    repeated.run.names = ["C", "A", "B"] ∧ "A" ∈ repeated.supplied ∧
      repeated.run.register "A" = (false, repeated.run) := by
  obtain ⟨hnames, -, -, -, -, hregister, -⟩ := run_invariant repeated
  have hmem : "A" ∈ repeated.supplied := by decide
  exact ⟨hnames.trans (by decide), hmem, (hregister "A").2 hmem⟩

end History

end Registry

end DialogRules
