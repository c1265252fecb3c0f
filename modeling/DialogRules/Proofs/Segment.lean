import DialogRules.Proofs.Lexeme

/-!
# The cut of a text

What the lexemes of a text are can be said without saying how they are
found. A cut of a text divides all of it into blanks and lexemes, each of
which may stand where it stands: a word is not part of a longer one, and
no lexeme begins at a stray character (`Segment.IsCut`). Every text has
one cut and no other, and the lexemes in it are those of the text
(`Segment.isCut_iff`), so nothing but blanks is lost and nothing else is a
reading of the text as symbols, words and strays.
-/

namespace DialogRules

/-- A piece of a text: a blank, or a lexeme. -/
inductive Segment where
  | blank (char : Char)
  | lexeme (lexeme : Lexeme)
deriving DecidableEq

namespace Segment

/-- The characters of the segment. -/
def chars : Segment → List Char
  | .blank c => [c]
  | .lexeme l => l.text.toList

/-- The lexeme, if the segment is one. -/
def lexeme? : Segment → Option Lexeme
  | .blank _ => none
  | .lexeme l => some l

/-- Whether the segment may stand between two parts of a text. A symbol
may stand anywhere; a word has no word character beside it; a stray
character is none that a lexeme begins with, but for the first half of a
comparison without the second. -/
def Fits (left : List Char) : Segment → (right : List Char) → Prop
  | .blank c, _ => Text.isBlank c = true
  | .lexeme (.token t), right =>
    t.text ∈ Lexeme.symbols ∨ (Text.isWord t.text = true ∧
      (∀ c ∈ left.getLast?, Text.isWordChar c = false) ∧
      ∀ c ∈ right.head?, Text.isWordChar c = false)
  | .lexeme (.stray c), right =>
    Text.isBlank c = false ∧ Text.isWordChar c = false ∧
      c ∉ ['(', ')', '&', '|', '+', ';'] ∧ (c ∈ ['=', '!', '>', '<'] → right.head? ≠ some '=')

/-- Whether a text is divided into some segments that fit. -/
structure IsCut (cs : List Char) (segments : List Segment) : Prop where
  /-- The segments are the text, in order. -/
  joined : segments.flatMap chars = cs
  /-- Every segment fits between those before it and those behind it. -/
  fits : ∀ before segment behind, segments = before ++ segment :: behind →
    segment.Fits (before.flatMap chars) (behind.flatMap chars)

/-- The segments of a text, from left to right. -/
def ofChars : List Char → List Segment
  | [] => []
  | c :: cs =>
    if Text.isBlank c then .blank c :: ofChars cs
    else .lexeme (Lexeme.next c cs).1 :: ofChars (Lexeme.next c cs).2
termination_by cs => cs.length
decreasing_by
  · simp
  · exact Nat.lt_succ_of_le (Lexeme.length_next_le c cs)

/-- The segments of a text, from left to right. -/
def ofString (s : String) : List Segment := ofChars s.toList

/-! ## The first segment -/

theorem ofChars_of_isBlank {c : Char} (hc : Text.isBlank c = true) (cs : List Char) :
    ofChars (c :: cs) = .blank c :: ofChars cs := by
  rw [ofChars, if_pos hc]

theorem ofChars_cons {c : Char} (hc : Text.isBlank c = false) (cs : List Char) :
    ofChars (c :: cs) = .lexeme (Lexeme.next c cs).1 :: ofChars (Lexeme.next c cs).2 := by
  rw [ofChars, if_neg (by simp [hc])]

/-- A segment that fits is the first one, whatever stands behind it. -/
theorem ofChars_append {left right : List Char} {segment : Segment} (h : segment.Fits left right) :
    ofChars (segment.chars ++ right) = segment :: ofChars right := by
  match segment with
  | .blank c => exact ofChars_of_isBlank h right
  | .lexeme (.stray c) =>
    obtain ⟨hblank, hword, hsymbol⟩ := h
    have hnext := Lexeme.next_stray (Lexeme.symbol?_eq_none_iff.2 hsymbol) hword
    have hchars : chars (.lexeme (.stray c)) = [c] := by simp [chars, Lexeme.text]
    rw [hchars, List.singleton_append, ofChars_cons hblank, hnext]
  | .lexeme (.token t) =>
    have hfirst : ∃ c cs, t.text.toList = c :: cs ∧ Text.isBlank c = false ∧
        Lexeme.next c (cs ++ right) = (.token t, right) := by
      rcases h with hsymbol | ⟨hword, -, hright⟩
      · exact Lexeme.exists_next_symbol hsymbol right
      · exact Lexeme.exists_next_word hword hright
    obtain ⟨c, cs, hc, hblank, hnext⟩ := hfirst
    rw [chars, Lexeme.text_token, hc, List.cons_append, ofChars_cons hblank, hnext]

/-! ## Every cut is the same -/

/-- Whether every segment fits behind a part of a text and those before
it. -/
def FitsFrom (left : List Char) : List Segment → Prop
  | [] => True
  | segment :: segments => segment.Fits left (segments.flatMap chars) ∧
      FitsFrom (left ++ segment.chars) segments

theorem fitsFrom_iff {left : List Char} {segments : List Segment} :
    FitsFrom left segments ↔ ∀ before segment behind,
      segments = before ++ segment :: behind →
        segment.Fits (left ++ before.flatMap chars) (behind.flatMap chars) := by
  induction segments generalizing left with
  | nil => simp [FitsFrom]
  | cons first segments ih =>
    rw [FitsFrom, ih]
    constructor
    · rintro ⟨hfirst, hrest⟩ before segment behind hsplit
      cases before with
      | nil =>
        obtain ⟨rfl, rfl⟩ := List.cons.inj hsplit
        simpa using hfirst
      | cons other before =>
        obtain ⟨rfl, hsegments⟩ := List.cons.inj hsplit
        simpa using hrest before segment behind hsegments
    · intro h
      refine ⟨by simpa using h [] first segments rfl, fun before segment behind hsplit => ?_⟩
      simpa using h (first :: before) segment behind (by rw [hsplit, List.cons_append])

/-- Segments that fit are those of the text that they make up. -/
theorem eq_ofChars_of_fitsFrom {left : List Char} {segments : List Segment}
    (h : FitsFrom left segments) : segments = ofChars (segments.flatMap chars) := by
  induction segments generalizing left with
  | nil => simp [ofChars]
  | cons segment segments ih =>
    rw [List.flatMap_cons, ofChars_append h.1, ← ih h.2]

/-! ## Every text has a cut -/

theorem flatMap_chars_ofChars (cs : List Char) : (ofChars cs).flatMap chars = cs := by
  fun_induction ofChars cs with
  | case1 => rfl
  | case2 c cs hc ih => rw [List.flatMap_cons, ih, chars, List.singleton_append]
  | case3 c cs hc ih => rw [List.flatMap_cons, ih, chars, Lexeme.text_next_append]

/-- Whether no word goes on from one part of a text to the next. -/
def Parted (left right : List Char) : Prop :=
  ∀ c ∈ left.getLast?, ∀ d ∈ right.head?, Text.isWordChar c = true → Text.isWordChar d = false

/-- No word goes on behind characters that are none of a word. -/
theorem parted_append {cs : List Char} (hne : cs ≠ [])
    (h : ∀ c ∈ cs, Text.isWordChar c = false) (left right : List Char) :
    Parted (left ++ cs) right := by
  intro c hc d hd hword
  rw [List.getLast?_append, List.getLast?_eq_some_getLast hne, Option.some_or,
    Option.mem_some] at hc
  rw [← hc, h _ (List.getLast_mem hne)] at hword
  cases hword

/-- **The next lexeme fits**, behind anything that no word goes on from,
and no word goes on from it. -/
theorem fits_next {left cs : List Char} {c : Char} (hblank : Text.isBlank c = false)
    (h : Parted left (c :: cs)) :
    (lexeme (Lexeme.next c cs).1).Fits left (Lexeme.next c cs).2 ∧
      Parted (left ++ chars (lexeme (Lexeme.next c cs).1)) (Lexeme.next c cs).2 := by
  rcases Lexeme.next_cases c cs with ⟨s, hs, -, hnext⟩ | ⟨hword, hnext⟩ | ⟨hsymbol, hword, hnext⟩
  · rw [hnext]
    exact ⟨.inl hs, parted_append (Lexeme.toList_ne_nil_of_mem_symbols hs)
      (fun d hd => (Lexeme.isBlank_isWordChar_of_mem_symbols hs hd).2) left _⟩
  · have hright := Text.isWordChar_of_head?_dropWhile cs
    rw [hnext]
    refine ⟨.inr ⟨?_, fun d hd => ?_, hright⟩, fun _ _ d hd _ => hright d hd⟩
    · simp [Text.isWord, hword, List.all_takeWhile]
    · -- a word character before this one would belong to the same word
      cases hd' : Text.isWordChar d with
      | false => rfl
      | true => exact absurd hword (by simp [h d hd c rfl hd'])
  · rw [hnext]
    refine ⟨⟨hblank, hword, Lexeme.symbol?_eq_none_iff.1 hsymbol⟩, parted_append ?_ ?_ left cs⟩
    · simp [chars, Lexeme.text]
    · simpa [chars, Lexeme.text] using hword

/-- **The segments of a text fit**, behind anything that no word goes on
from. -/
theorem fitsFrom_ofChars {left cs : List Char} (h : Parted left cs) :
    FitsFrom left (ofChars cs) := by
  fun_induction ofChars cs generalizing left with
  | case1 => trivial
  | case2 c cs hc ih =>
    have hword : ∀ d ∈ [c], Text.isWordChar d = false :=
      List.forall_mem_singleton.2 (Text.isWordChar_of_isBlank hc)
    exact ⟨hc, ih (parted_append (List.cons_ne_nil c []) hword left cs)⟩
  | case3 c cs hc ih =>
    obtain ⟨hfits, hparted⟩ := fits_next (by simpa using hc) h
    refine ⟨?_, ih hparted⟩
    rwa [flatMap_chars_ofChars]

/-- **A text has one cut.** -/
theorem isCut_iff {cs : List Char} {segments : List Segment} :
    IsCut cs segments ↔ segments = ofChars cs := by
  -- at the start of the text nothing is behind, so no word goes on from there
  have hfits : FitsFrom [] segments ↔ ∀ before segment behind,
      segments = before ++ segment :: behind →
        segment.Fits (before.flatMap chars) (behind.flatMap chars) := fitsFrom_iff
  constructor
  · rintro ⟨hjoined, hall⟩
    rw [← hjoined]
    exact eq_ofChars_of_fitsFrom (hfits.2 hall)
  · rintro rfl
    exact ⟨flatMap_chars_ofChars cs, hfits.1 (fitsFrom_ofChars nofun)⟩

/-! ## The lexemes of the cut -/

theorem filterMap_lexeme?_ofChars (cs : List Char) :
    (ofChars cs).filterMap lexeme? = Lexeme.ofChars cs := by
  fun_induction ofChars cs with
  | case1 => simp [Lexeme.ofChars]
  | case2 c cs hc ih => rw [List.filterMap_cons_none rfl, ih, Lexeme.ofChars_of_isBlank hc]
  | case3 c cs hc ih =>
    have hlexeme : lexeme? (.lexeme (Lexeme.next c cs).1) = some (Lexeme.next c cs).1 := rfl
    rw [List.filterMap_cons_some hlexeme, ih, Lexeme.ofChars_cons (by simpa using hc)]

/-- **The lexemes of a text** are those of its one cut, and its tokens are
the tokens among them. Together they are the characters of the text that
are not blank. -/
theorem isCut_ofString (s : String) :
    (∀ segments, IsCut s.toList segments ↔ segments = ofString s) ∧
      (ofString s).filterMap lexeme? = Lexeme.ofString s ∧
      (Lexeme.ofString s).filterMap Lexeme.token? = Token.ofString s ∧
      (Lexeme.ofString s).flatMap (fun l => l.text.toList) =
        s.toList.filter fun c => !Text.isBlank c :=
  ⟨fun _ => isCut_iff, filterMap_lexeme?_ofChars s.toList, rfl,
    Lexeme.flatMap_text_ofChars s.toList⟩

/-- Two comparisons and what is left of them. -/
example : ofString "<===é =a" =
    [.lexeme (.token ⟨"<="⟩), .lexeme (.token ⟨"=="⟩), .lexeme (.stray 'é'), .blank ' ',
      .lexeme (.stray '='), .lexeme (.token ⟨"a"⟩)] := by
  decide +kernel

end Segment

end DialogRules
