import DialogRules.Lexeme

/-!
# What cutting keeps

Cutting a text into lexemes drops its blanks and nothing else
(`flatMap_text_ofChars`), and every token that comes out is a symbol or a
word (`isTokenText_of_mem`). In the other direction a symbol is cut off
whatever follows it, and a word if no word character follows it
(`ofChars_symbol_append`, `ofChars_word_append`).
-/

namespace DialogRules

/-! ## Characters of symbols and words -/

theorem Text.isBlank_of_isWordChar {c : Char} (h : isWordChar c = true) : isBlank c = false := by
  have hbound : 0x30 ≤ c.toNat ∧ c.toNat ≤ 0x7a := by
    delta isWordChar Char.isAlphanum Char.isAlpha Char.isUpper Char.isLower Char.isDigit at h
    simp only [Bool.or_eq_true, Bool.and_eq_true, decide_eq_true_eq, beq_iff_eq,
      UInt32.le_iff_toNat_le, ge_iff_le] at h
    rcases h with ((h | h) | h) | rfl
    · exact ⟨Nat.le_trans (by decide) h.1, Nat.le_trans h.2 (by decide)⟩
    · exact ⟨Nat.le_trans (by decide) h.1, Nat.le_trans h.2 (by decide)⟩
    · exact ⟨h.1, Nat.le_trans h.2 (by decide)⟩
    · decide
  rw [isBlank, List.any_eq_false]
  intro range hrange
  simp only [blankRanges, List.mem_cons, List.not_mem_nil, or_false] at hrange
  rcases hrange with rfl | rfl | rfl | rfl | rfl | rfl | rfl | rfl | rfl | rfl <;>
    simp only [Bool.and_eq_true, decide_eq_true_eq] <;> omega

theorem Text.isWordChar_of_isBlank {c : Char} (h : isBlank c = true) : isWordChar c = false := by
  cases hc : isWordChar c with
  | false => rfl
  | true =>
    rw [isBlank_of_isWordChar hc] at h
    cases h

/-- A word is not empty and has word characters only. -/
theorem Text.isWord_iff {s : String} :
    isWord s = true ↔ s.toList ≠ [] ∧ ∀ c ∈ s.toList, isWordChar c = true := by
  simp [isWord]

/-- No word character follows a word that goes as far as it can. -/
theorem Text.isWordChar_of_head?_dropWhile (cs : List Char) :
    ∀ c ∈ (cs.dropWhile isWordChar).head?, isWordChar c = false := by
  intro c hc
  have hhead := List.head?_dropWhile_not isWordChar cs
  rw [hc] at hhead
  simpa using hhead

/-- A word is split off as a whole if no word character follows it. -/
theorem Text.splitWord_append {w cs : List Char} (hw : ∀ c ∈ w, isWordChar c = true)
    (hcs : ∀ c ∈ cs.head?, isWordChar c = false) :
    (w ++ cs).takeWhile isWordChar = w ∧ (w ++ cs).dropWhile isWordChar = cs := by
  rw [List.takeWhile_append_of_pos hw, List.dropWhile_append_of_pos hw]
  cases cs with
  | nil => exact ⟨List.append_nil w, rfl⟩
  | cons c cs =>
    have hc : isWordChar c = false := hcs c rfl
    simp [hc]

/-- A word ends before a character that is not one of a word, if it goes so
far. -/
theorem Text.splitWord_append_of_not_isWordChar {d : Char} (hd : isWordChar d = false)
    (cs ds : List Char) :
    (cs ++ d :: ds).takeWhile isWordChar = cs.takeWhile isWordChar ∧
      (cs ++ d :: ds).dropWhile isWordChar = cs.dropWhile isWordChar ++ d :: ds := by
  induction cs with
  | nil => simp [hd]
  | cons c cs ih => cases hc : isWordChar c <;> simp [hc, ih]

namespace Lexeme

/-- Whether a text can be that of a token: a symbol or a word. -/
def IsTokenText (s : String) : Prop := s ∈ symbols ∨ Text.isWord s = true

instance (s : String) : Decidable (IsTokenText s) :=
  inferInstanceAs (Decidable (s ∈ symbols ∨ Text.isWord s = true))

/-- No character of a symbol is a blank or may stand in a word. -/
theorem isBlank_isWordChar_of_mem_symbols {s : String} (hs : s ∈ symbols) {c : Char}
    (hc : c ∈ s.toList) : Text.isBlank c = false ∧ Text.isWordChar c = false := by
  have hall : (symbols.all fun s => s.toList.all fun c =>
      !Text.isBlank c && !Text.isWordChar c) = true := by decide
  have hchar := List.all_eq_true.1 (List.all_eq_true.1 hall s hs) c hc
  simpa using hchar

theorem toList_ne_nil_of_mem_symbols {s : String} (hs : s ∈ symbols) : s.toList ≠ [] := by
  revert s
  decide

/-- No symbol is a word. -/
theorem isWord_of_mem_symbols {s : String} (hs : s ∈ symbols) : Text.isWord s = false := by
  revert s
  decide

/-! ## The symbol at the start of a text -/

/-- A symbol is found whatever follows it: none begins another. -/
theorem symbol?_append {s : String} (hs : s ∈ symbols) (cs : List Char) :
    symbol? (s.toList ++ cs) = some s := by
  simp only [symbols, List.mem_cons, List.not_mem_nil, or_false] at hs
  rcases hs with rfl | rfl | rfl | rfl | rfl | rfl | rfl | rfl | rfl | rfl <;> rfl

theorem symbol?_eq_some {s : String} {cs : List Char} (h : symbol? cs = some s) :
    s ∈ symbols ∧ s.toList ++ cs.drop s.length = cs := by
  refine ⟨List.mem_of_find?_eq_some h, ?_⟩
  have hp : s.toList <+: cs := by simpa using List.find?_some h
  rw [← String.length_toList]
  exact (List.prefix_iff_eq_append.1 hp)

/-- No symbol begins with a word character. -/
theorem symbol?_eq_none {c : Char} (hc : Text.isWordChar c = true) (cs : List Char) :
    symbol? (c :: cs) = none := by
  cases hs : symbol? (c :: cs) with
  | none => rfl
  | some s =>
    -- its first character would be this one
    obtain ⟨hmem, happ⟩ := symbol?_eq_some hs
    obtain ⟨d, ds, hd⟩ := List.exists_cons_of_ne_nil (toList_ne_nil_of_mem_symbols hmem)
    have hword := (isBlank_isWordChar_of_mem_symbols hmem (c := d) (by simp [hd])).2
    rw [hd, List.cons_append] at happ
    rw [(List.cons.inj happ).1, hc] at hword
    cases hword

/-- **No symbol begins** at a character that is not one itself, and at the
first half of a comparison if the second is not behind it. -/
theorem symbol?_eq_none_iff {c : Char} {cs : List Char} :
    symbol? (c :: cs) = none ↔
      c ∉ ['(', ')', '&', '|', '+', ';'] ∧ (c ∈ ['=', '!', '>', '<'] → cs.head? ≠ some '=') := by
  rw [symbol?, List.find?_eq_none]
  cases cs <;> simp [symbols] <;> grind

/-! ## One lexeme -/

theorem text_token (t : Token) : text (.token t) = t.text := rfl

theorem next_symbol_append {s : String} (hs : s ∈ symbols) {c : Char} {cs ds : List Char}
    (h : c :: cs = s.toList ++ ds) : next c cs = (.token ⟨s⟩, ds) := by
  have hsym : symbol? (c :: cs) = some s := h ▸ symbol?_append hs ds
  have hdrop : cs.drop (s.length - 1) = ds := by
    obtain ⟨d, rest, hd⟩ := List.exists_cons_of_ne_nil (toList_ne_nil_of_mem_symbols hs)
    have hlen : s.length = rest.length + 1 := by rw [← String.length_toList, hd, List.length_cons]
    rw [hd, List.cons_append] at h
    rw [(List.cons.inj h).2, hlen, Nat.add_sub_cancel, List.drop_left]
  rw [next, hsym]
  simp only [hdrop]

theorem next_of_isWordChar {c : Char} (hc : Text.isWordChar c = true) (cs : List Char) :
    next c cs = (.token ⟨String.ofList (c :: cs.takeWhile Text.isWordChar)⟩,
      cs.dropWhile Text.isWordChar) := by
  rw [next, symbol?_eq_none hc]
  simp only [hc, if_true]

/-- A character that no lexeme begins with is stray. -/
theorem next_stray {c : Char} {cs : List Char} (hsymbol : symbol? (c :: cs) = none)
    (hword : Text.isWordChar c = false) : next c cs = (.stray c, cs) := by
  rw [next, hsymbol]
  simp [hword]

/-- A symbol is the lexeme at the start of what begins with it. -/
theorem exists_next_symbol {s : String} (hs : s ∈ symbols) (cs : List Char) :
    ∃ c rest, s.toList = c :: rest ∧ Text.isBlank c = false ∧
      next c (rest ++ cs) = (.token ⟨s⟩, cs) := by
  obtain ⟨c, rest, hc⟩ := List.exists_cons_of_ne_nil (toList_ne_nil_of_mem_symbols hs)
  refine ⟨c, rest, hc, ?_, next_symbol_append hs (by rw [hc, List.cons_append])⟩
  exact (isBlank_isWordChar_of_mem_symbols hs (by simp [hc])).1

/-- And so is a word, if no word character follows it. -/
theorem exists_next_word {w : String} (hw : Text.isWord w = true) {cs : List Char}
    (hcs : ∀ c ∈ cs.head?, Text.isWordChar c = false) :
    ∃ c rest, w.toList = c :: rest ∧ Text.isBlank c = false ∧
      next c (rest ++ cs) = (.token ⟨w⟩, cs) := by
  obtain ⟨hne, hall⟩ := Text.isWord_iff.1 hw
  obtain ⟨c, rest, hc⟩ := List.exists_cons_of_ne_nil hne
  have hword : Text.isWordChar c = true := hall c (by simp [hc])
  have hsplit := Text.splitWord_append (w := rest) (fun d hd => hall d (by simp [hc, hd])) hcs
  refine ⟨c, rest, hc, Text.isBlank_of_isWordChar hword, ?_⟩
  rw [next_of_isWordChar hword, hsplit.1, hsplit.2, ← hc, String.ofList_toList]

/-- **What one lexeme can be**: a symbol, a word as long as it goes, or a
stray character that neither begins. -/
theorem next_cases (c : Char) (cs : List Char) :
    (∃ s ∈ symbols, c :: cs = s.toList ++ (next c cs).2 ∧ (next c cs).1 = .token ⟨s⟩) ∨
    (Text.isWordChar c = true ∧ next c cs =
      (.token ⟨String.ofList (c :: cs.takeWhile Text.isWordChar)⟩,
        cs.dropWhile Text.isWordChar)) ∨
    (symbol? (c :: cs) = none ∧ Text.isWordChar c = false ∧ next c cs = (.stray c, cs)) := by
  cases hs : symbol? (c :: cs) with
  | some s =>
    obtain ⟨hmem, happ⟩ := symbol?_eq_some hs
    have hnext := next_symbol_append hmem happ.symm
    exact .inl ⟨s, hmem, by rw [hnext, happ], by rw [hnext]⟩
  | none =>
    cases hc : Text.isWordChar c with
    | true => exact .inr (.inl ⟨rfl, next_of_isWordChar hc cs⟩)
    | false => exact .inr (.inr ⟨rfl, rfl, next_stray hs hc⟩)

/-- A lexeme and what stands behind it are the text they were cut from. -/
theorem text_next_append (c : Char) (cs : List Char) :
    (next c cs).1.text.toList ++ (next c cs).2 = c :: cs := by
  rcases next_cases c cs with ⟨s, -, happ, hs⟩ | ⟨-, h⟩ | ⟨-, -, h⟩
  · rw [hs, text_token, ← happ]
  · simp [h, text]
  · simp [h, text]

/-- Only the blanks before a lexeme are dropped, never one inside it. -/
theorem isBlank_of_mem_text_next {c : Char} (hc : Text.isBlank c = false) (cs : List Char) :
    ∀ d ∈ (next c cs).1.text.toList, Text.isBlank d = false := by
  intro d hd
  rcases next_cases c cs with ⟨s, hmem, -, hs⟩ | ⟨hword, h⟩ | ⟨-, -, h⟩
  · rw [hs, text_token] at hd
    exact (isBlank_isWordChar_of_mem_symbols hmem hd).1
  · simp only [h, text, String.toList_ofList, List.mem_cons] at hd
    rcases hd with rfl | hd
    · exact hc
    · exact Text.isBlank_of_isWordChar (List.all_eq_true.1 List.all_takeWhile d hd)
  · simp only [h, text, String.toList_singleton, List.mem_singleton] at hd
    exact hd ▸ hc

theorem isTokenText_of_next {c : Char} {cs : List Char} {t : Token}
    (h : (next c cs).1 = .token t) : IsTokenText t.text := by
  rcases next_cases c cs with ⟨s, hmem, -, hs⟩ | ⟨hword, hn⟩ | ⟨-, -, hn⟩
  · rw [hs] at h
    cases h
    exact .inl hmem
  · rw [hn] at h
    cases h
    refine .inr ?_
    simp [Text.isWord, hword, List.all_takeWhile]
  · rw [hn] at h
    cases h

/-! ## All lexemes -/

theorem ofChars_of_isBlank {c : Char} (hc : Text.isBlank c = true) (cs : List Char) :
    ofChars (c :: cs) = ofChars cs := by
  rw [ofChars, if_pos hc]

theorem ofChars_cons {c : Char} (hc : Text.isBlank c = false) (cs : List Char) :
    ofChars (c :: cs) = (next c cs).1 :: ofChars (next c cs).2 := by
  rw [ofChars, if_neg (by simp [hc])]

/-- **Nothing but blanks is lost**: the lexemes of a text are its other
characters, in order. -/
theorem flatMap_text_ofChars (cs : List Char) :
    (ofChars cs).flatMap (fun l => l.text.toList) = cs.filter (fun c => !Text.isBlank c) := by
  fun_induction ofChars cs with
  | case1 => rfl
  | case2 c cs hc ih => rw [ih, List.filter_cons_of_neg (by simp [hc])]
  | case3 c cs hc ih =>
    have hc' : Text.isBlank c = false := by simpa using hc
    have hkeep : (next c cs).1.text.toList.filter (fun d => !Text.isBlank d) =
        (next c cs).1.text.toList :=
      List.filter_eq_self.2 fun d hd => by simp [isBlank_of_mem_text_next hc' cs d hd]
    rw [List.flatMap_cons, ih, ← text_next_append c cs, List.filter_append, hkeep]

/-- **Every token is a symbol or a word.** -/
theorem isTokenText_of_mem {cs : List Char} {t : Token} (h : .token t ∈ ofChars cs) :
    IsTokenText t.text := by
  fun_induction ofChars cs with
  | case1 => cases h
  | case2 c cs hc ih => exact ih h
  | case3 c cs hc ih =>
    rcases List.mem_cons.1 h with heq | htail
    · exact isTokenText_of_next heq.symm
    · exact ih htail

/-- A symbol is cut off whatever follows it. -/
theorem ofChars_symbol_append {s : String} (hs : s ∈ symbols) (cs : List Char) :
    ofChars (s.toList ++ cs) = .token ⟨s⟩ :: ofChars cs := by
  obtain ⟨c, rest, hc, hblank, hnext⟩ := exists_next_symbol hs cs
  rw [hc, List.cons_append, ofChars_cons hblank, hnext]

/-- A word is cut off as a whole if no word character follows it. -/
theorem ofChars_word_append {w : String} (hw : Text.isWord w = true) {cs : List Char}
    (hcs : ∀ c ∈ cs.head?, Text.isWordChar c = false) :
    ofChars (w.toList ++ cs) = .token ⟨w⟩ :: ofChars cs := by
  obtain ⟨c, rest, hc, hblank, hnext⟩ := exists_next_word hw hcs
  rw [hc, List.cons_append, ofChars_cons hblank, hnext]

/-- The tokens among some lexemes are all of them if no character is
stray. -/
theorem eq_map_token_iff {ls : List Lexeme} {ts : List Token} :
    ls = ts.map .token ↔ ls.filterMap token? = ts ∧ ∀ c, .stray c ∉ ls := by
  induction ls generalizing ts with
  | nil => simp [eq_comm]
  | cons l ls ih =>
    cases l with
    | stray c =>
      refine iff_of_false (fun h => ?_) fun h => h.2 c List.mem_cons_self
      cases ts <;> simp at h
    | token t => cases ts <;> simp [token?, ih, and_assoc]

/-! ## Sure cuts -/

/-- Whether no lexeme that has begun goes on with a character: none of a
word does, and no symbol but with an equals sign. -/
def Breaks (d : Char) : Prop := Text.isWordChar d = false ∧ d ≠ '='

instance (d : Char) : Decidable (Breaks d) :=
  inferInstanceAs (Decidable (Text.isWordChar d = false ∧ d ≠ '='))

/-- Behind its first character a symbol has an equals sign at most. -/
theorem tail_of_mem_symbols {s : String} (hs : s ∈ symbols) :
    s.toList.tail = [] ∨ s.toList.tail = ['='] := by
  revert s
  decide

/-- Where no symbol begins none begins if a break is put behind. -/
theorem symbol?_append_eq_none {c d : Char} {cs : List Char} (hd : Breaks d)
    (h : symbol? (c :: cs) = none) (ds : List Char) : symbol? (c :: (cs ++ d :: ds)) = none := by
  cases hs : symbol? (c :: (cs ++ d :: ds)) with
  | none => rfl
  | some s =>
    -- the symbol would end before the break, so it would have been found
    obtain ⟨hmem, happ⟩ := symbol?_eq_some hs
    have hfound : ∀ rest, c :: cs ≠ s.toList ++ rest := by
      intro rest hrest
      rw [hrest, symbol?_append hmem] at h
      cases h
    obtain ⟨e, tail, he⟩ := List.exists_cons_of_ne_nil (toList_ne_nil_of_mem_symbols hmem)
    rw [he, List.cons_append] at happ
    obtain ⟨hc, hcs⟩ := List.cons.inj happ
    rcases tail_of_mem_symbols hmem with htail | htail
    · rw [he, List.tail_cons] at htail
      exact absurd (by rw [he, hc, htail]; rfl) (hfound cs)
    · rw [he, List.tail_cons] at htail
      rw [htail] at hcs
      cases cs with
      | nil => exact absurd (List.cons.inj hcs).1.symm hd.2
      | cons f fs =>
        exact absurd (by rw [he, hc, htail, ← (List.cons.inj hcs).1]; rfl) (hfound fs)

/-- A lexeme ends before a break. -/
theorem next_append {d : Char} (hd : Breaks d) (c : Char) (cs ds : List Char) :
    next c (cs ++ d :: ds) = ((next c cs).1, (next c cs).2 ++ d :: ds) := by
  rcases next_cases c cs with ⟨s, hs, happ, htoken⟩ | ⟨hc, hn⟩ | ⟨hnone, hc, hn⟩
  · rw [htoken]
    refine next_symbol_append hs ?_
    rw [← List.append_assoc, ← happ, List.cons_append]
  · obtain ⟨htake, hdrop⟩ := Text.splitWord_append_of_not_isWordChar hd.1 cs ds
    rw [next_of_isWordChar hc, hn, htake, hdrop]
  · rw [hn, next_stray (symbol?_append_eq_none hd hnone ds) hc]

/-- **A text is cut before a break** as if it ended there. -/
theorem ofChars_append {d : Char} (hd : Breaks d) (cs ds : List Char) :
    ofChars (cs ++ d :: ds) = ofChars cs ++ ofChars (d :: ds) := by
  fun_induction ofChars cs with
  | case1 => rfl
  | case2 c cs hc ih => rw [List.cons_append, ofChars_of_isBlank hc, ih]
  | case3 c cs hc ih =>
    have hc' : Text.isBlank c = false := by simpa using hc
    rw [List.cons_append, ofChars_cons hc', next_append hd, ih, List.cons_append]

end Lexeme

end DialogRules
