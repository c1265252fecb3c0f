import DialogRules.Proofs.Lexeme
import DialogRules.Proofs.Statement
import Mathlib.Data.List.Chain

/-!
# Tokens and the blanks between them

Tokens may be written with any blanks before, between and after them, and
are cut out of the text again, all of them and nothing else. Symbols need
no blank beside them, for no symbol grows into another; a blank has to
stand only between two words, which are one word without it
(`Spacing.ofChars_charsOf_iff`).

Where a blank stands a text can be divided: what is on one side of it is
cut as if the other side were not there (`Lexeme.ofString_append_blank`).
-/

namespace DialogRules

open Text (AreBlanks)

/-! ## Cutting beside a blank and behind a word -/

namespace Lexeme

/-- No lexeme goes on with a blank. -/
theorem breaks_of_isBlank {c : Char} (hc : Text.isBlank c = true) : Breaks c := by
  refine ⟨Text.isWordChar_of_isBlank hc, ?_⟩
  rintro rfl
  exact absurd hc (by decide)

/-- Blanks in front of a text are no part of a lexeme. -/
theorem ofChars_blanks_append {bs : List Char} (hbs : AreBlanks bs) (cs : List Char) :
    ofChars (bs ++ cs) = ofChars cs := by
  induction bs with
  | nil => rfl
  | cons b bs ih =>
    obtain ⟨hb, hrest⟩ := List.forall_mem_cons.1 hbs
    rw [List.cons_append, ofChars_of_isBlank hb, ih hrest]

/-- **A blank divides a text** into two that are cut on their own. -/
theorem ofString_append_blank {c : Char} (hc : Text.isBlank c = true) (s t : String) :
    ofString (s ++ String.singleton c ++ t) = ofString s ++ ofString t := by
  have hchars : (s ++ String.singleton c ++ t).toList = s.toList ++ c :: t.toList := by simp
  rw [ofString, hchars, ofChars_append (breaks_of_isBlank hc), ofChars_of_isBlank hc]
  rfl

/-- Whether a token is a word shows in its first character. -/
theorem IsTokenText.exists_cons {s : String} (h : IsTokenText s) :
    ∃ c cs, s.toList = c :: cs ∧ Text.isWordChar c = Text.isWord s := by
  rcases h with hsymbol | hword
  · obtain ⟨c, cs, hc⟩ := List.exists_cons_of_ne_nil (toList_ne_nil_of_mem_symbols hsymbol)
    have hchar := (isBlank_isWordChar_of_mem_symbols hsymbol (c := c) (by simp [hc])).2
    exact ⟨c, cs, hc, by rw [hchar, isWord_of_mem_symbols hsymbol]⟩
  · obtain ⟨hne, hall⟩ := Text.isWord_iff.1 hword
    obtain ⟨c, cs, hc⟩ := List.exists_cons_of_ne_nil hne
    exact ⟨c, cs, hc, by rw [hall c (by simp [hc]), hword]⟩

/-- A word is the first lexeme only if no word character follows it: it
would go on with one. -/
theorem isWordChar_of_ofChars_eq {w : String} (hw : Text.isWord w = true) {cs : List Char}
    {ls : List Lexeme} (h : ofChars (w.toList ++ cs) = .token ⟨w⟩ :: ls) :
    ∀ d ∈ cs.head?, Text.isWordChar d = false := by
  intro d hd
  obtain ⟨ds, rfl⟩ := List.head?_eq_some_iff.1 hd
  cases hd' : Text.isWordChar d with
  | false => rfl
  | true =>
    obtain ⟨hne, hall⟩ := Text.isWord_iff.1 hw
    obtain ⟨c, rest, hc⟩ := List.exists_cons_of_ne_nil hne
    have hword : Text.isWordChar c = true := hall c (by simp [hc])
    have hrest : ∀ e ∈ rest, Text.isWordChar e = true := fun e he => hall e (by simp [hc, he])
    -- the first lexeme is longer than the word by this character at least
    rw [hc, List.cons_append, ofChars_cons (Text.isBlank_of_isWordChar hword),
      next_of_isWordChar hword, List.takeWhile_append_of_pos hrest,
      List.takeWhile_cons_of_pos hd'] at h
    have htext := congrArg String.toList (Token.mk.inj (Lexeme.token.inj (List.cons.inj h).1))
    simp [hc] at htext

/-- **A word is cut off as a whole** if no word character follows it, and
only then. -/
theorem ofChars_word_append_eq_iff {w : String} (hw : Text.isWord w = true) {cs : List Char}
    {ls : List Lexeme} :
    ofChars (w.toList ++ cs) = .token ⟨w⟩ :: ls ↔
      (∀ d ∈ cs.head?, Text.isWordChar d = false) ∧ ofChars cs = ls := by
  constructor
  · intro h
    have hcs := isWordChar_of_ofChars_eq hw h
    rw [ofChars_word_append hw hcs] at h
    exact ⟨hcs, (List.cons.inj h).2⟩
  · rintro ⟨hcs, rfl⟩
    exact ofChars_word_append hw hcs

end Lexeme

/-! ## Spaced tokens -/

/-- A token as it is written, behind some blanks. -/
structure Spaced where
  /-- The blanks in front of the token. -/
  before : String
  /-- The token. -/
  token : Token
  /-- There are only blanks in front of the token. -/
  areBlanks : AreBlanks before.toList
  /-- The token is a symbol or a word. -/
  isTokenText : Lexeme.IsTokenText token.text

namespace Spaced

/-- The text of the token and the blanks in front of it. -/
def text (x : Spaced) : String := x.before ++ x.token.text

/-- Whether a token may be written behind another with these blanks: two
words need one. -/
def MayFollow (x y : Spaced) : Prop :=
  x.token.isWord = true → y.token.isWord = true → y.before ≠ ""

instance (x y : Spaced) : Decidable (x.MayFollow y) :=
  inferInstanceAs (Decidable (x.token.isWord = true → y.token.isWord = true → y.before ≠ ""))

end Spaced

/-- Tokens as they are written: each behind its blanks, and blanks behind
the last. -/
structure Spacing where
  /-- The tokens, from left to right. -/
  items : List Spaced
  /-- The blanks behind the last token. -/
  after : String
  /-- There are only blanks behind the last token. -/
  areBlanks : AreBlanks after.toList

namespace Spacing

/-- The tokens that are written. -/
def tokens (p : Spacing) : List Token := p.items.map Spaced.token

/-- The text of the tokens with the blanks around them. -/
def text (p : Spacing) : String :=
  String.join (p.items.map Spaced.text) ++ p.after

/-- Whether no two words are written with nothing between them. -/
def IsParted (p : Spacing) : Prop := p.items.IsChain Spaced.MayFollow

instance (p : Spacing) : Decidable p.IsParted :=
  inferInstanceAs (Decidable (p.items.IsChain Spaced.MayFollow))

/-- The characters of some spaced tokens and of what follows them. -/
def charsOf (items : List Spaced) (after : List Char) : List Char :=
  items.flatMap (fun x => x.text.toList) ++ after

theorem charsOf_cons (x : Spaced) (items : List Spaced) (after : List Char) :
    charsOf (x :: items) after =
      x.before.toList ++ (x.token.text.toList ++ charsOf items after) := by
  simp [charsOf, Spaced.text]

theorem toList_text (p : Spacing) : p.text.toList = charsOf p.items p.after.toList := by
  simp [text, charsOf, List.flatMap_map]

/-! ## What stands behind a word -/

/-- **Behind a word nothing goes on with it** unless the next token is a
word and has no blank in front of it. -/
theorem head?_charsOf_iff {x : Spaced} {items : List Spaced} {after : List Char}
    (hafter : AreBlanks after) (hx : x.token.isWord = true) :
    (∀ c ∈ (charsOf items after).head?, Text.isWordChar c = false) ↔
      ∀ y ∈ items.head?, x.MayFollow y := by
  cases items with
  | nil =>
    refine iff_of_true (fun c hc => ?_) nofun
    exact Text.isWordChar_of_isBlank (hafter c (List.mem_of_mem_head? hc))
  | cons y items =>
    obtain ⟨c, cs, hc, hword⟩ := y.isTokenText.exists_cons
    rw [charsOf_cons]
    by_cases hbefore : y.before = ""
    · -- the first character is that of the token
      have hx' : Text.isWord x.token.text = true := hx
      simp [hbefore, hc, hword, Spaced.MayFollow, Token.isWord, hx']
    · obtain ⟨b, bs, hb⟩ := List.exists_cons_of_ne_nil (Text.toList_ne_nil.2 hbefore)
      have hblank : Text.isBlank b = true := y.areBlanks b (by simp [hb])
      simp [hb, Text.isWordChar_of_isBlank hblank, Spaced.MayFollow, hbefore]

/-- **Tokens that are written are cut out again**, and nothing beside
them, exactly if no two words are written with nothing between them. -/
theorem ofChars_charsOf_iff {items : List Spaced} {after : List Char} (hafter : AreBlanks after) :
    Lexeme.ofChars (charsOf items after) = items.map (fun x => .token x.token) ↔
      items.IsChain Spaced.MayFollow := by
  induction items with
  | nil =>
    have hnone := Lexeme.ofChars_blanks_append hafter []
    rw [List.append_nil] at hnone
    simp [charsOf, hnone, Lexeme.ofChars]
  | cons x items ih =>
    rw [charsOf_cons, Lexeme.ofChars_blanks_append x.areBlanks, List.map_cons, List.isChain_cons]
    rcases x.isTokenText with hsymbol | hword
    · -- a symbol is cut off whatever follows it
      have hfree : ∀ y ∈ items.head?, x.MayFollow y := by
        intro y _ hx
        rw [Token.isWord, Lexeme.isWord_of_mem_symbols hsymbol] at hx
        cases hx
      rw [Lexeme.ofChars_symbol_append hsymbol, and_iff_right hfree, ← ih]
      simp
    · rw [Lexeme.ofChars_word_append_eq_iff hword, ih, head?_charsOf_iff hafter hword]

/-! ## The text of the tokens -/

/-- **Writing tokens and cutting them out again.** The tokens of the text
are those that were written, and no character of it is stray, exactly if
no two words are written with nothing between them. And any text is cut on
both sides of a blank as if it ended and began there. -/
theorem isParted_iff_and_ofString_append_blank :
    (∀ p : Spacing, p.IsParted ↔
      Token.ofString p.text = p.tokens ∧ ∀ c, .stray c ∉ Lexeme.ofString p.text) ∧
    ∀ (s t : String) (c : Char), Text.isBlank c = true →
      Lexeme.ofString (s ++ String.singleton c ++ t) = Lexeme.ofString s ++ Lexeme.ofString t := by
  refine ⟨fun p => ?_, fun s t c hc => Lexeme.ofString_append_blank hc s t⟩
  have hmap : p.items.map (fun x => Lexeme.token x.token) = p.tokens.map .token := by
    simp [tokens]
  rw [IsParted, ← ofChars_charsOf_iff p.areBlanks, ← toList_text, hmap,
    Lexeme.eq_map_token_iff]
  rfl

/-- Comparisons that stand side by side, and two words that only a line
separator keeps apart. -/
def crowded : Spacing where
  items :=
    [⟨"", ⟨"<="⟩, by decide, .inl (by decide)⟩,
      ⟨"", ⟨"=="⟩, by decide, .inl (by decide)⟩,
      ⟨"", ⟨"if"⟩, by decide, .inr (by decide)⟩,
      ⟨"\u2028", ⟨"42"⟩, by decide, .inr (by decide)⟩,
      ⟨"", ⟨"!="⟩, by decide, .inl (by decide)⟩]
  after := "\t"
  areBlanks := by decide

/-- They are cut apart, and the separator divides the text. -/
theorem ofString_text_crowded :
    crowded.text = "<===if\u202842!=\t" ∧ crowded.IsParted ∧
      Token.ofString crowded.text = [⟨"<="⟩, ⟨"=="⟩, ⟨"if"⟩, ⟨"42"⟩, ⟨"!="⟩] ∧
      Text.isBlank '\u2028' = true ∧
      Lexeme.ofString ("<===if" ++ String.singleton '\u2028' ++ "42!=\t") =
        Lexeme.ofString "<===if" ++ Lexeme.ofString "42!=\t" := by
  have hparted : crowded.IsParted := by decide
  have hseparator : Text.isBlank '\u2028' = true := by decide
  obtain ⟨hcut, hdivided⟩ := isParted_iff_and_ofString_append_blank
  exact ⟨by decide +kernel, hparted, ((hcut crowded).1 hparted).1, hseparator,
    hdivided "<===if" "42!=\t" '\u2028' hseparator⟩

end Spacing

end DialogRules
