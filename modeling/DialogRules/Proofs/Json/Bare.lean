import DialogRules.Proofs.Json.Text
import DialogRules.Proofs.RuleSet.RoundTrip

/-!
# What JSON does not tell

In JSON a group is what it holds, so parentheses around one atom leave no
trace. Nothing else is lost: two conditions that reading builds have one
text exactly if they are the same without such parentheses, and the text
of a compiled rule set tells its elements, its actions and its conditions
in that sense (`RuleSet.told_by_json`). An atom and a sequence are both
arrays, but an atom begins with a word in quotation marks and a sequence
never does (`Atom.IsSpelled.toJson_ne_sequence`); the rest is recursion
over the condition (`Condition.told_of_spelled`).
-/

namespace DialogRules

/-! ## Conditions without parentheses around atoms -/

/-- A condition as a term: one atom needs no parentheses. -/
def Term.ofCondition : Condition → Term
  | .atom a => .atom a
  | .sequence terms => .group (.sequence terms)

mutual

/-- The condition with every group of one atom replaced by the atom. -/
def Condition.bare : Condition → Condition
  | .atom a => .atom a
  | .sequence terms => .sequence (Term.bareList terms)

/-- The term with every group of one atom replaced by the atom. -/
def Term.bare : Term → Term
  | .atom a => .atom a
  | .connective c => .connective c
  | .group inner => Term.ofCondition inner.bare

/-- The terms with every group of one atom replaced by the atom. -/
def Term.bareList : List Term → List Term
  | [] => []
  | t :: ts => t.bare :: Term.bareList ts

end

theorem Term.bareList_eq_map (ts : List Term) : bareList ts = ts.map bare := by
  induction ts with
  | nil => rfl
  | cons t ts ih => rw [bareList, ih, List.map_cons]

theorem Term.toJson_ofCondition (c : Condition) : (ofCondition c).toJson = c.toJson := by
  cases c <;> rfl

mutual

/-- **The parentheses around atoms leave no trace.** -/
theorem Condition.toJson_bare : (c : Condition) → c.bare.toJson = c.toJson
  | .atom _ => rfl
  | .sequence terms => congrArg Json.array (Term.toJsonList_bareList terms)

theorem Term.toJson_bare : (t : Term) → t.bare.toJson = t.toJson
  | .atom _ | .connective _ => rfl
  | .group inner => (Term.toJson_ofCondition inner.bare).trans inner.toJson_bare

theorem Term.toJsonList_bareList : (ts : List Term) →
    Term.toJsonList (Term.bareList ts) = Term.toJsonList ts
  | [] => rfl
  | t :: ts => by
    rw [Term.bareList, Term.toJsonList, t.toJson_bare, Term.toJsonList_bareList ts]
    rfl

end

/-! ## Kinds of conditions are not confused -/

theorem Connective.text_ne_of_isWord (c : Connective) {s : String} (h : Text.isWord s = true) :
    c.text ≠ s := by
  rintro rfl
  cases c <;> exact absurd h (by decide)

theorem Condition.exists_toJson_eq (c : Condition) : ∃ items, c.toJson = .array items := by
  cases c <;> exact ⟨_, rfl⟩

/-- Only connectives are strings. -/
theorem Term.toJson_eq_string {t : Term} {s : String} (h : t.toJson = .string s) :
    ∃ c, t = .connective c ∧ c.text = s := by
  cases t with
  | atom a => cases h
  | connective c => exact ⟨c, rfl, Json.string.inj h⟩
  | group inner =>
    obtain ⟨items, hitems⟩ := inner.exists_toJson_eq
    cases hitems.symm.trans h

/-- **An atom is not confused** with a sequence, which begins with no
word. -/
theorem Atom.IsSpelled.toJson_ne_sequence {a : Atom} (ha : a.IsSpelled) (ts : List Term) :
    a.toJson ≠ (Condition.sequence ts).toJson := by
  intro h
  cases ts with
  | nil => cases h
  | cons t ts =>
    obtain ⟨c, -, hc⟩ := Term.toJson_eq_string (List.cons.inj (Json.array.inj h)).1.symm
    exact c.text_ne_of_isWord ha.subject hc

theorem Atom.toJson_inj {a b : Atom} (h : a.toJson = b.toJson) : a = b := by
  cases a
  cases b
  simpa [Atom.toJson] using h

/-! ## Nothing else is lost -/

/-- Whether the JSON of a condition tells it from all others with spelled
atoms, but for parentheses around atoms. -/
def Condition.Told (c : Condition) : Prop :=
  ∀ d : Condition, (∀ a ∈ d.atoms, a.IsSpelled) → c.toJson = d.toJson → c.bare = d.bare

/-- The same of a term. -/
def Term.Told (t : Term) : Prop :=
  ∀ u : Term, (∀ a ∈ u.atoms, a.IsSpelled) → t.toJson = u.toJson → t.bare = u.bare

theorem Condition.told_atom {a : Atom} (ha : a.IsSpelled) : (atom a).Told := by
  intro d hd h
  cases d with
  | atom b => rw [Atom.toJson_inj h]
  | sequence ts => exact absurd h (ha.toJson_ne_sequence ts)

/-- Levels are told term by term. -/
theorem Term.bareList_eq_of_told {ts us : List Term} (hts : ∀ t ∈ ts, t.Told)
    (hus : ∀ a ∈ atomsOfList us, a.IsSpelled) (h : toJsonList ts = toJsonList us) :
    bareList ts = bareList us := by
  induction ts generalizing us with
  | nil =>
    cases us with
    | nil => rfl
    | cons u us => cases h
  | cons t ts ih =>
    obtain ⟨ht, hts⟩ := List.forall_mem_cons.1 hts
    cases us with
    | nil => cases h
    | cons u us =>
      obtain ⟨hu, hus⟩ := List.forall_mem_append.1 hus
      obtain ⟨hhead, htail⟩ := List.cons.inj h
      rw [bareList, ht u hu hhead, ih hts hus htail, bareList]

theorem Condition.told_sequence {ts : List Term} (hts : ∀ t ∈ ts, t.Told) :
    (sequence ts).Told := by
  intro d hd h
  cases d with
  | atom a => exact absurd h.symm ((hd a (List.mem_singleton_self a)).toJson_ne_sequence ts)
  | sequence us => exact congrArg sequence (Term.bareList_eq_of_told hts hd (Json.array.inj h))

/-- A term that stands for a condition is told if the condition is. -/
theorem Term.told_of_condition {t : Term} {c : Condition} (hc : c.Told)
    (hjson : t.toJson = c.toJson) (hbare : t.bare = ofCondition c.bare) : t.Told := by
  intro u hu h
  rw [hjson] at h
  -- an atom is one of the conditions to compare with, so a group of it needs no case of its own
  cases u with
  | atom b => rw [hbare, hc (.atom b) hu h]; rfl
  | connective c' =>
    obtain ⟨items, hitems⟩ := c.exists_toJson_eq
    cases hitems.symm.trans h
  | group inner => rw [hbare, hc inner hu h]; rfl

theorem Term.told_connective (c : Connective) : (connective c).Told := by
  intro u hu h
  obtain ⟨d, rfl, htext⟩ := Term.toJson_eq_string h.symm
  rw [Vocabulary.text_inj d c htext]

mutual

/-- **A condition with spelled atoms is told** by its JSON, but for
parentheses around atoms. -/
theorem Condition.told_of_spelled : (c : Condition) → (∀ a ∈ c.atoms, a.IsSpelled) → c.Told
  | .atom a, h => Condition.told_atom (h a (List.mem_singleton_self a))
  | .sequence ts, h => Condition.told_sequence (Term.told_of_mem_of_spelled ts h)

theorem Term.told_of_spelled : (t : Term) → (∀ a ∈ t.atoms, a.IsSpelled) → t.Told
  | .atom a, h =>
    Term.told_of_condition (Condition.told_atom (h a (List.mem_singleton_self a))) rfl rfl
  | .connective c, _ => Term.told_connective c
  | .group inner, h => Term.told_of_condition (Condition.told_of_spelled inner h) rfl rfl

theorem Term.told_of_mem_of_spelled : (ts : List Term) →
    (∀ a ∈ Term.atomsOfList ts, a.IsSpelled) → ∀ t ∈ ts, t.Told
  | [], _ => List.forall_mem_nil _
  | t :: ts, h =>
    have hsplit := List.forall_mem_append.1 h
    List.forall_mem_cons.2
      ⟨Term.told_of_spelled t hsplit.1, Term.told_of_mem_of_spelled ts hsplit.2⟩

end

/-- **The text of a condition** tells all of it but the parentheses around
atoms. -/
theorem Condition.render_toJson_eq_iff {c d : Condition} (hc : ∀ a ∈ c.atoms, a.IsSpelled)
    (hd : ∀ a ∈ d.atoms, a.IsSpelled) :
    c.toJson.render = d.toJson.render ↔ c.bare = d.bare := by
  rw [Json.render_inj]
  exact ⟨c.told_of_spelled hc d hd, fun h => by rw [← c.toJson_bare, h, d.toJson_bare]⟩

theorem Elements.toJson_inj {es fs : Elements} : es.toJson = fs.toJson ↔ es = fs := by
  rw [toJson, toJson, Json.array.injEq, List.map_inj_right fun _ _ => Json.string.inj]
  exact ⟨Elements.ext, congrArg names⟩

namespace RuleSet

/-- Rules are told by the fields of the object they become. -/
theorem map_toJson_eq_iff {rules others : List Rule}
    (hrules : ∀ r ∈ rules, r.condition.Normal) (hothers : ∀ r ∈ others, r.condition.Normal) :
    rules.map (fun r => (r.action.text, r.condition.toJson)) =
        others.map (fun r => (r.action.text, r.condition.toJson)) ↔
      rules.map Rule.action = others.map Rule.action ∧
        rules.map (fun r => r.condition.bare) = others.map fun r => r.condition.bare := by
  induction rules generalizing others with
  | nil => cases others <;> simp
  | cons r rules ih =>
    cases others with
    | nil => simp
    | cons s others =>
      obtain ⟨hr, hrules⟩ := List.forall_mem_cons.1 hrules
      obtain ⟨hs, hothers⟩ := List.forall_mem_cons.1 hothers
      have haction : r.action.text = s.action.text ↔ r.action = s.action :=
        ⟨fun h => Vocabulary.text_inj r.action s.action h, congrArg Action.text⟩
      have hcondition : r.condition.toJson = s.condition.toJson ↔
          r.condition.bare = s.condition.bare := by
        rw [← Json.render_inj, Condition.render_toJson_eq_iff hr.spelled hs.spelled]
      simp only [List.map_cons, List.cons.injEq, Prod.mk.injEq, haction, hcondition,
        ih hrules hothers]
      exact and_and_and_comm

/-- **The text of a rule set** with normal conditions tells its elements,
its actions and its conditions, but for parentheses around atoms. -/
theorem render_toJson_eq_iff {rs ss : RuleSet} (hrs : ∀ r ∈ rs.rules, r.condition.Normal)
    (hss : ∀ r ∈ ss.rules, r.condition.Normal) :
    rs.toJson.render = ss.toJson.render ↔
      rs.elements = ss.elements ∧ rs.actions = ss.actions ∧
        rs.rules.map (fun r => r.condition.bare) = ss.rules.map fun r => r.condition.bare := by
  rw [Json.render_inj, actions, actions, ← map_toJson_eq_iff hrs hss, ← Elements.toJson_inj]
  simp [toJson]

/-- No two fields of the conditions have one name. -/
theorem nodup_map_text (rs : RuleSet) : (rs.rules.map fun r => r.action.text).Nodup := by
  rw [List.nodup_iff_pairwise_ne, List.pairwise_map]
  have hactions := List.pairwise_map.1 (List.nodup_iff_pairwise_ne.1 rs.nodup)
  exact hactions.imp fun hne htext => hne (Vocabulary.text_inj _ _ htext)

end RuleSet

/-! ## What is read and compiled -/

/-- Whether reading some text gives the condition. -/
def Condition.IsRead (c : Condition) : Prop := ∃ s, (read s).result = .ok c

theorem Condition.IsRead.spelled {c : Condition} (h : c.IsRead) : ∀ a ∈ c.atoms, a.IsSpelled := by
  obtain ⟨s, hs⟩ := h
  exact (normal_of_result hs).spelled

/-- A level with a group in it is not a level of connectives, with or
without its parentheses. -/
theorem Term.bareList_ne_of_group_mem {ts : List Term} {inner : Condition}
    (h : .group inner ∈ ts) (cs : List Connective) :
    bareList (cs.map connective) ≠ bareList ts := by
  intro heq
  have hmem : (group inner).bare ∈ bareList (cs.map connective) := by
    rw [heq, bareList_eq_map]
    exact List.mem_map_of_mem h
  rw [bareList_eq_map, List.map_map, List.mem_map] at hmem
  obtain ⟨c, -, hc⟩ := hmem
  cases inner <;> cases hc

/-- **Kinds are told apart**: an atom, three connectives, and a level with
a group in it. -/
theorem Condition.render_toJson_ne {a : Atom} {ts : List Term} {inner : Condition}
    (ha : a.IsSpelled) (hts : ∀ b ∈ (sequence ts).atoms, b.IsSpelled) (h : .group inner ∈ ts)
    (x y z : Connective) :
    (atom a).toJson.render ≠
        (sequence [.connective x, .connective y, .connective z]).toJson.render ∧
      (atom a).toJson.render ≠ (sequence ts).toJson.render ∧
      (sequence [.connective x, .connective y, .connective z]).toJson.render ≠
        (sequence ts).toJson.render := by
  have hatom : ∀ b ∈ (atom a).atoms, b.IsSpelled := List.forall_mem_singleton.2 ha
  have hconnectives : ∀ b ∈ (sequence [.connective x, .connective y, .connective z]).atoms,
      b.IsSpelled := List.forall_mem_nil _
  simp only [ne_eq, render_toJson_eq_iff hatom hconnectives, render_toJson_eq_iff hatom hts,
    render_toJson_eq_iff hconnectives hts]
  exact ⟨nofun, nofun, fun heq =>
    Term.bareList_ne_of_group_mem h [x, y, z] (Condition.sequence.inj heq)⟩

/-- **JSON loses the parentheses around atoms and nothing else.** The text
of a condition that was read is that of another exactly if the two are
equal without such parentheses, so an atom, three connectives and a level
with a group in it have three texts. The text of a compiled rule set tells
its elements, its actions, each of which names one field, and with each of
them the condition, again but for these parentheses. -/
theorem RuleSet.told_by_json :
    (∀ c d : Condition, c.IsRead → d.IsRead →
      (c.toJson.render = d.toJson.render ↔ c.bare = d.bare)) ∧
    (∀ (a : Atom) (ts : List Term) (inner : Condition) (x y z : Connective),
      (Condition.atom a).IsRead → (Condition.sequence ts).IsRead → .group inner ∈ ts →
        (Condition.atom a).toJson.render ≠
            (Condition.sequence [.connective x, .connective y, .connective z]).toJson.render ∧
          (Condition.atom a).toJson.render ≠ (Condition.sequence ts).toJson.render ∧
          (Condition.sequence [.connective x, .connective y, .connective z]).toJson.render ≠
            (Condition.sequence ts).toJson.render) ∧
    (∀ document other : String,
      (ofDocument document).toJson.render = (ofDocument other).toJson.render ↔
        (ofDocument document).elements = (ofDocument other).elements ∧
        (ofDocument document).actions = (ofDocument other).actions ∧
        (ofDocument document).rules.map (fun r => r.condition.bare) =
          (ofDocument other).rules.map fun r => r.condition.bare) ∧
    ∀ document : String, ((ofDocument document).rules.map fun r => r.action.text).Nodup := by
  refine ⟨fun c d hc hd => ?_, fun a ts inner x y z ha hts hinner => ?_,
    fun document other => ?_, fun document => nodup_map_text (ofDocument document)⟩
  · exact Condition.render_toJson_eq_iff hc.spelled hd.spelled
  · exact Condition.render_toJson_ne (ha.spelled a (List.mem_singleton_self a)) hts.spelled
      hinner x y z
  · exact render_toJson_eq_iff (fun r hr => normal_of_mem_ofDocument hr)
      fun r hr => normal_of_mem_ofDocument hr

/-- Parentheses around an atom are lost, but not those around nothing or
around connectives, and three connectives are not the atom that holds
their texts. -/
theorem RuleSet.told_by_json_parens :
    (ofDocument "show if (A == 1) &;").toJson.render =
        (ofDocument "show if A == 1 &;").toJson.render ∧
      (Condition.sequence [.group (.sequence [.connective .and]), .connective .or]).toJson.render ≠
        (Condition.sequence [.connective .and, .connective .or]).toJson.render ∧
      (Condition.atom ⟨"A", "&", "&"⟩).toJson.render ≠
        (Condition.sequence [.connective .and, .connective .and, .connective .and]).toJson.render ∧
      (Condition.atom ⟨"A", "&", "&"⟩).toJson.render ≠
        (Condition.sequence [.group (.sequence []), .group (.sequence [])]).toJson.render := by
  obtain ⟨hconditions, hkinds, hrules, -⟩ := told_by_json
  have hgroup := hconditions (.sequence [.group (.sequence [.connective .and]), .connective .or])
    (.sequence [.connective .and, .connective .or]) ⟨"(&) |", by decide +kernel⟩
    ⟨"& |", by decide +kernel⟩
  have hthree := hkinds ⟨"A", "&", "&"⟩ [.group (.sequence []), .group (.sequence [])]
    (.sequence []) .and .and .and ⟨"A & &", by decide +kernel⟩ ⟨"() ()", by decide +kernel⟩
    (by decide)
  exact ⟨(hrules _ _).2 (by decide +kernel), fun heq => absurd (hgroup.1 heq) (by decide),
    hthree.1, hthree.2.1⟩

end DialogRules
