import DialogRules.Json

/-!
# The text of a value tells the value

No two values have the same text (`Json.render_inj`). The texts of
the parts of a value stand inside that of the value, with something
behind them, so what is proved of each part is that it can be read off
any text that begins with its own, and where it ends (`Json.Legible`):
first of a character and its escape, then of a text in quotation marks, of
a bracketed list of legible things, and, by recursion over the value, of
every value.
-/

namespace DialogRules

namespace Json

/-- Whether something can be read off every text that begins with its own,
and with it where its own text ends. -/
def Legible {α : Type} (text : α → String) (a : α) : Prop :=
  ∀ b cs ds, (text a).toList ++ cs = (text b).toList ++ ds → a = b ∧ cs = ds

/-- What is legible is told by its text. -/
theorem Legible.eq {α : Type} {text : α → String} {a b : α} (h : Legible text a)
    (heq : text a = text b) : a = b :=
  (h b [] [] (by rw [heq])).1

/-! ## Characters -/

/-- The number that a hexadecimal digit stands for. -/
def digitValue (c : Char) : Nat :=
  if c.isDigit then c.toNat - '0'.toNat else c.toNat - 'a'.toNat + 10

theorem digitValue_digitChar {n : Nat} (h : n < 16) : digitValue n.digitChar = n := by
  have hall : ∀ n < 16, digitValue (Nat.digitChar n) = n := by decide
  exact hall n h

/-- The character that was escaped with a backslash before some text, and
what is left of the text. -/
def escaped? : List Char → Option (Char × List Char)
  | '"' :: cs => some ('"', cs)
  | '\\' :: cs => some ('\\', cs)
  | 'b' :: cs => some ('\x08', cs)
  | 'f' :: cs => some ('\x0c', cs)
  | 'n' :: cs => some ('\n', cs)
  | 'r' :: cs => some ('\r', cs)
  | 't' :: cs => some ('\t', cs)
  | 'u' :: '0' :: '0' :: high :: low :: cs =>
    some (Char.ofNat (16 * digitValue high + digitValue low), cs)
  | _ => none

/-- The character at the start of a text, escaped or not, and the text
behind it. -/
def unescape? : List Char → Option (Char × List Char)
  | [] => none
  | c :: cs => if c = '\\' then escaped? cs else some (c, cs)

/-- **An escape can be read back**, and it can be told where it ends. -/
theorem unescape?_escape (c : Char) (cs : List Char) :
    unescape? (escape c ++ cs) = some (c, cs) := by
  fun_cases escape c with
  | case8 _ _ _ _ _ _ _ hcontrol =>
    have hhigh : digitValue (c.toNat / 16).digitChar = c.toNat / 16 :=
      digitValue_digitChar (by omega)
    have hlow : digitValue (c.toNat % 16).digitChar = c.toNat % 16 :=
      digitValue_digitChar (by omega)
    simp [unescape?, escaped?, hhigh, hlow, Nat.div_add_mod]
  | case9 hquote hbackslash => simp [unescape?, hbackslash]
  | _ =>
    subst_vars
    rfl

theorem eq_of_escape {c d : Char} {cs ds : List Char} (h : escape c ++ cs = escape d ++ ds) :
    c = d ∧ cs = ds := by
  have hread := congrArg unescape? h
  rw [unescape?_escape, unescape?_escape] at hread
  exact Prod.mk.inj (Option.some.inj hread)

/-- No escape begins with a quotation mark. -/
theorem escape_append_ne (c : Char) (cs ds : List Char) : escape c ++ cs ≠ '"' :: ds := by
  intro h
  have hread := congrArg unescape? h
  rw [unescape?_escape] at hread
  -- what begins so is read as the quotation mark, which is escaped itself
  obtain ⟨rfl, rfl⟩ := Prod.mk.inj (Option.some.inj hread)
  simp [escape] at h

/-! ## Texts in quotation marks -/

/-- A text ends at the first quotation mark that is not escaped. -/
theorem eq_of_flatMap_escape {cs ds es fs : List Char}
    (h : cs.flatMap escape ++ '"' :: es = ds.flatMap escape ++ '"' :: fs) : cs = ds ∧ es = fs := by
  induction cs generalizing ds with
  | nil =>
    cases ds with
    | nil => exact ⟨rfl, (List.cons.inj h).2⟩
    | cons d ds =>
      -- the mark that ends one text would begin an escape in the other
      rw [List.flatMap_cons, List.append_assoc] at h
      exact absurd h.symm (escape_append_ne d _ _)
  | cons c cs ih =>
    rw [List.flatMap_cons, List.append_assoc] at h
    cases ds with
    | nil => exact absurd h (escape_append_ne c _ _)
    | cons d ds =>
      rw [List.flatMap_cons, List.append_assoc] at h
      obtain ⟨rfl, hrest⟩ := eq_of_escape h
      obtain ⟨rfl, hes⟩ := ih hrest
      exact ⟨rfl, hes⟩

theorem toList_quote (s : String) :
    (quote s).toList = '"' :: (s.toList.flatMap escape ++ ['"']) := by
  simp [quote]

/-- **A text in quotation marks is legible**, whatever it is. -/
theorem legible_quote (s : String) : Legible quote s := by
  intro t cs ds h
  simp only [toList_quote, List.cons_append, List.append_assoc] at h
  obtain ⟨hchars, hrest⟩ := eq_of_flatMap_escape (List.cons.inj h).2
  exact ⟨String.toList_inj.1 hchars, hrest⟩

/-! ## Lists in brackets -/

section Lists

variable {α : Type} {text : α → String} {close : Char}

/-- The texts of the items of a list, with a comma before each. -/
def listed (text : α → String) (as : List α) : List Char :=
  as.flatMap fun a => ',' :: (text a).toList

/-- Legible things with commas before them end at a bracket. -/
theorem eq_of_listed (hclose : close ≠ ',') {as bs : List α} (has : ∀ a ∈ as, Legible text a)
    {cs ds : List Char}
    (h : listed text as ++ close :: cs = listed text bs ++ close :: ds) : as = bs ∧ cs = ds := by
  induction as generalizing bs with
  | nil =>
    cases bs with
    | nil => exact ⟨rfl, (List.cons.inj h).2⟩
    | cons b bs => exact absurd (List.cons.inj h).1 hclose
  | cons a as ih =>
    obtain ⟨ha, has⟩ := List.forall_mem_cons.1 has
    cases bs with
    | nil => exact absurd (List.cons.inj h).1.symm hclose
    | cons b bs =>
      simp only [listed, List.flatMap_cons, List.cons_append, List.append_assoc] at h
      obtain ⟨rfl, hrest⟩ := ha b _ _ (List.cons.inj h).2
      obtain ⟨rfl, hcs⟩ := ih has hrest
      exact ⟨rfl, hcs⟩

theorem toList_intercalate_cons (a : α) (as : List α) :
    (",".intercalate ((a :: as).map text)).toList = (text a).toList ++ listed text as := by
  induction as generalizing a with
  | nil => simp [listed]
  | cons b as ih =>
    rw [List.map_cons, String.intercalate_cons_of_ne_nil (by simp), String.toList_append,
      String.toList_append, ih]
    simp [listed]

/-- **Legible things between brackets** are legible together, if none of
them begins with the closing bracket. -/
theorem eq_of_intercalate (hclose : close ≠ ',')
    (hstart : ∀ a cs ds, (text a).toList ++ cs ≠ close :: ds) {as bs : List α}
    (has : ∀ a ∈ as, Legible text a) {cs ds : List Char}
    (h : (",".intercalate (as.map text)).toList ++ close :: cs =
      (",".intercalate (bs.map text)).toList ++ close :: ds) : as = bs ∧ cs = ds := by
  cases as with
  | nil =>
    cases bs with
    | nil => exact ⟨rfl, (List.cons.inj h).2⟩
    | cons b bs =>
      rw [toList_intercalate_cons, List.append_assoc] at h
      exact absurd h.symm (hstart b _ _)
  | cons a as =>
    obtain ⟨ha, has⟩ := List.forall_mem_cons.1 has
    rw [toList_intercalate_cons, List.append_assoc] at h
    cases bs with
    | nil => exact absurd h (hstart a _ _)
    | cons b bs =>
      rw [toList_intercalate_cons, List.append_assoc] at h
      obtain ⟨rfl, hrest⟩ := ha b _ _ h
      obtain ⟨rfl, hcs⟩ := eq_of_listed hclose has hrest
      exact ⟨rfl, hcs⟩

end Lists

/-! ## Values -/

theorem renderItems_eq_map (items : List Json) : renderItems items = items.map render := by
  induction items with
  | nil => rfl
  | cons item items ih => rw [renderItems, ih, List.map_cons]

/-- The text of a field. -/
def renderField (field : String × Json) : String := quote field.1 ++ ":" ++ field.2.render

theorem renderFields_eq_map (fields : List (String × Json)) :
    renderFields fields = fields.map renderField := by
  induction fields with
  | nil => rfl
  | cons field fields ih => rw [renderFields, ih, List.map_cons, renderField]

/-- The character that the text of a value begins with. -/
def mark : Json → Char
  | .string _ => '"'
  | .array _ => '['
  | .object _ => '\x7b'

theorem exists_toList_render (v : Json) : ∃ cs, v.render.toList = v.mark :: cs := by
  cases v with
  | string s => exact ⟨_, by rw [render, toList_quote]; rfl⟩
  | array items => exact ⟨_, by simp only [render, String.toList_append]; rfl⟩
  | object fields => exact ⟨_, by simp only [render, String.toList_append]; rfl⟩

theorem mark_eq {v : Json} {c : Char} {cs ds : List Char} (h : v.render.toList ++ cs = c :: ds) :
    v.mark = c := by
  obtain ⟨es, hes⟩ := v.exists_toList_render
  rw [hes] at h
  exact (List.cons.inj h).1

/-- Values with texts that begin alike are of the same kind. -/
theorem mark_eq_mark {v w : Json} {cs ds : List Char}
    (h : v.render.toList ++ cs = w.render.toList ++ ds) : v.mark = w.mark := by
  obtain ⟨es, hes⟩ := w.exists_toList_render
  rw [hes, List.cons_append] at h
  exact mark_eq h

theorem toList_render_array (items : List Json) (cs : List Char) :
    (render (.array items)).toList ++ cs =
      '[' :: ((",".intercalate (items.map render)).toList ++ ']' :: cs) := by
  simp [render, renderItems_eq_map]

theorem toList_render_object (fields : List (String × Json)) (cs : List Char) :
    (render (.object fields)).toList ++ cs =
      '\x7b' :: ((",".intercalate (fields.map renderField)).toList ++ '\x7d' :: cs) := by
  simp [render, renderFields_eq_map]

theorem legible_field {field : String × Json} (h : Legible render field.2) :
    Legible renderField field := by
  intro other cs ds heq
  simp only [renderField, String.toList_append, List.append_assoc] at heq
  obtain ⟨hname, hvalue⟩ := legible_quote field.1 other.1 _ _ heq
  obtain ⟨hvalue, hrest⟩ := h other.2 _ _ (List.cons.inj hvalue).2
  exact ⟨Prod.ext hname hvalue, hrest⟩

/-- An array of legible values is legible. -/
theorem legible_array {items : List Json} (h : ∀ v ∈ items, Legible render v) :
    Legible render (.array items) := by
  intro w cs ds heq
  have hmark := mark_eq_mark heq
  cases w with
  | string s => exact absurd hmark (by simp [mark])
  | object fields => exact absurd hmark (by simp [mark])
  | array others =>
    simp only [toList_render_array] at heq
    obtain ⟨rfl, hrest⟩ := eq_of_intercalate (by decide)
      (fun v es fs hv => by cases v <;> exact absurd (mark_eq hv) (by simp [mark])) h
      (List.cons.inj heq).2
    exact ⟨rfl, hrest⟩

/-- An object of legible values is legible. -/
theorem legible_object {fields : List (String × Json)} (h : ∀ f ∈ fields, Legible render f.2) :
    Legible render (.object fields) := by
  intro w cs ds heq
  have hmark := mark_eq_mark heq
  cases w with
  | string s => exact absurd hmark (by simp [mark])
  | array items => exact absurd hmark (by simp [mark])
  | object others =>
    simp only [toList_render_object] at heq
    obtain ⟨rfl, hrest⟩ := eq_of_intercalate (by decide)
      (fun f es fs hf => by simp [renderField, toList_quote] at hf)
      (fun f hf => legible_field (h f hf)) (List.cons.inj heq).2
    exact ⟨rfl, hrest⟩

theorem legible_string (s : String) : Legible render (.string s) := by
  intro w cs ds heq
  have hmark := mark_eq_mark heq
  cases w with
  | array items => exact absurd hmark (by simp [mark])
  | object fields => exact absurd hmark (by simp [mark])
  | string t =>
    obtain ⟨rfl, hrest⟩ := legible_quote s t cs ds heq
    exact ⟨rfl, hrest⟩

mutual

/-- **Every value is legible.** -/
theorem legible_render : (v : Json) → Legible render v
  | .string s => legible_string s
  | .array items => legible_array (legible_items items)
  | .object fields => legible_object (legible_fields fields)

theorem legible_items : (items : List Json) → ∀ v ∈ items, Legible render v
  | [] => List.forall_mem_nil _
  | v :: items => List.forall_mem_cons.2 ⟨legible_render v, legible_items items⟩

theorem legible_fields : (fields : List (String × Json)) → ∀ f ∈ fields, Legible render f.2
  | [] => List.forall_mem_nil _
  | (_, v) :: fields => List.forall_mem_cons.2 ⟨legible_render v, legible_fields fields⟩

end

/-- **No two values have the same text.** -/
theorem render_inj {v w : Json} : v.render = w.render ↔ v = w :=
  ⟨fun h => (legible_render v).eq h, fun h => h ▸ rfl⟩

end Json

end DialogRules
