/-!
# First occurrences

The names of the elements and the actions that have a rule are both kept
in lists that only grow at the end, and only by what they do not hold yet.
So a list of this kind is what it was at first, and then the first
occurrences of everything new that came to it (`foldl_addLast`). Whether
what is to come is put together first does not matter
(`foldl_addLast_assoc`).
-/

namespace DialogRules

section Occurrence

variable {α : Type} [DecidableEq α]

/-- The list with one more member, which goes last unless it is already
there. -/
def addLast (l : List α) (a : α) : List α := if a ∈ l then l else l ++ [a]

theorem addLast_of_mem {l : List α} {a : α} (h : a ∈ l) : addLast l a = l := if_pos h

theorem addLast_of_not_mem {l : List α} {a : α} (h : a ∉ l) : addLast l a = l ++ [a] := if_neg h

/-- **What is new goes last, once**, in the order of its first
occurrence. -/
theorem foldl_addLast (l as : List α) :
    as.foldl addLast l = l ++ (as.filter (· ∉ l)).eraseDups := by
  induction as generalizing l with
  | nil => simp
  | cons a as ih =>
    rw [List.foldl_cons, ih]
    by_cases ha : a ∈ l
    · simp [addLast_of_mem ha, ha]
    · have hfilter : as.filter (fun b => b ∉ l ++ [a]) =
          (as.filter (fun b => b ∉ l)).filter (fun b => !b == a) := by
        rw [List.filter_filter]
        refine List.filter_congr fun b _ => ?_
        by_cases hb : b = a <;> simp [hb]
      rw [addLast_of_not_mem ha, hfilter, List.filter_cons_of_pos (by simpa using ha),
        List.eraseDups_cons, List.append_assoc, List.singleton_append]

theorem foldl_addLast_nil (as : List α) : as.foldl addLast [] = as.eraseDups := by
  have hall : as.filter (fun a => a ∉ ([] : List α)) = as :=
    List.filter_eq_self.2 fun _ _ => by simp
  rw [foldl_addLast, List.nil_append, hall]

theorem mem_foldl_addLast {l as : List α} {a : α} : a ∈ as.foldl addLast l ↔ a ∈ l ∨ a ∈ as := by
  rw [foldl_addLast, List.mem_append, List.mem_eraseDups, List.mem_filter]
  by_cases ha : a ∈ l <;> simp [ha]

/-- Adding one more member and then putting the list behind another is
putting it there and then adding the member. -/
theorem foldl_addLast_addLast (l as : List α) (a : α) :
    (addLast as a).foldl addLast l = addLast (as.foldl addLast l) a := by
  by_cases ha : a ∈ as
  · rw [addLast_of_mem ha, addLast_of_mem (mem_foldl_addLast.2 (.inr ha))]
  · rw [addLast_of_not_mem ha, List.foldl_append, List.foldl_cons, List.foldl_nil]

/-- **Putting lists behind each other is associative.** -/
theorem foldl_addLast_assoc (l as bs : List α) :
    (bs.foldl addLast as).foldl addLast l = bs.foldl addLast (as.foldl addLast l) := by
  induction bs generalizing as with
  | nil => rfl
  | cons b bs ih => rw [List.foldl_cons, ih, foldl_addLast_addLast, List.foldl_cons]

/-- Where nothing is repeated nothing is struck out. -/
theorem eraseDups_eq_self {as : List α} (h : as.Nodup) : as.eraseDups = as := by
  induction as with
  | nil => rfl
  | cons a as ih =>
    obtain ⟨ha, has⟩ := List.nodup_cons.1 h
    have hfilter : as.filter (fun b => !b == a) = as := by
      refine List.filter_eq_self.2 fun b hb => ?_
      have hne : b ≠ a := fun he => ha (he ▸ hb)
      simpa using hne
    rw [List.eraseDups_cons, hfilter, ih has]

/-- What is kept apart by a function is kept in the same places. -/
theorem map_foldl_addLast {β : Type} [DecidableEq β] {f : α → β} (hf : ∀ a b, f a = f b → a = b)
    (l as : List α) : (as.foldl addLast l).map f = (as.map f).foldl addLast (l.map f) := by
  induction as generalizing l with
  | nil => rfl
  | cons a as ih =>
    have hadd : (addLast l a).map f = addLast (l.map f) (f a) := by
      by_cases ha : a ∈ l
      · rw [addLast_of_mem ha, addLast_of_mem (List.mem_map_of_mem ha)]
      · have hfa : f a ∉ l.map f := by
          intro hmem
          obtain ⟨b, hb, hba⟩ := List.mem_map.1 hmem
          exact ha (hf b a hba ▸ hb)
        rw [addLast_of_not_mem ha, addLast_of_not_mem hfa, List.map_append, List.map_singleton]
    rw [List.foldl_cons, ih, hadd, List.map_cons, List.foldl_cons]

theorem map_eraseDups {β : Type} [DecidableEq β] {f : α → β} (hf : ∀ a b, f a = f b → a = b)
    (as : List α) : as.eraseDups.map f = (as.map f).eraseDups := by
  rw [← foldl_addLast_nil, map_foldl_addLast hf, List.map_nil, foldl_addLast_nil]

end Occurrence

end DialogRules
