import DialogRules.Proofs.Condition.Atoms
import DialogRules.Proofs.Elements

/-!
# Reading by descent

The reader keeps its suspended levels in a list and the atoms it completed
beside its result. The same reading is done here by descent: a level reads
the groups in it by calling itself, all levels take from the same tokens,
and every completed atom is noted in one `Record` at once, so a failure
comes up through the levels and leaves the record and the tokens as they
are. Both ways read the same (`Condition.descend_eq`).
-/

namespace DialogRules

/-! ## Records -/

/-- What readings add to while they go on. -/
structure Record where
  /-- The elements that were named. -/
  elements : Elements
  /-- The advisories that were given. -/
  advisories : List Advisory
deriving DecidableEq

namespace Record

/-- The record in which nothing is noted. -/
def empty : Record := ⟨∅, []⟩

instance : EmptyCollection Record := ⟨empty⟩

/-- A completed atom names its subject and gives its advisories. -/
def note (r : Record) (a : Atom) : Record :=
  ⟨r.elements.insert a.subject, r.advisories ++ a.advisories⟩

/-- Completed atoms are noted in turn. -/
def noteAll (r : Record) (as : List Atom) : Record := as.foldl note r

@[simp] theorem noteAll_nil (r : Record) : r.noteAll [] = r := rfl

@[simp] theorem noteAll_cons (r : Record) (a : Atom) (as : List Atom) :
    r.noteAll (a :: as) = (r.note a).noteAll as := rfl

theorem noteAll_append (r : Record) (as bs : List Atom) :
    r.noteAll (as ++ bs) = (r.noteAll as).noteAll bs :=
  List.foldl_append

/-- **What atoms add to a record**: the elements they are about, and the
advisories about them, both in order. -/
theorem noteAll_eq (r : Record) (as : List Atom) :
    r.noteAll as =
      ⟨r.elements.insertAll (as.map Atom.subject), r.advisories ++ as.flatMap Atom.advisories⟩ := by
  induction as generalizing r with
  | nil => simp [Elements.insertAll]
  | cons a as ih =>
    rw [noteAll_cons, ih, List.flatMap_cons, ← List.append_assoc]
    rfl

end Record

/-! ## Descents -/

/-- What a descent into some tokens leaves behind. -/
structure Descent (ts : List Token) where
  /-- The condition, or why it could not be read. -/
  result : Except ParseError Condition
  /-- The record with the completed atoms noted. -/
  record : Record
  /-- The tokens that were not read. -/
  rest : List Token
  /-- They are the end of those that there were. -/
  suffix : rest <:+ ts

/-- A descent into the end of some tokens is one into these tokens. -/
def Descent.within {ts us : List Token} (d : Descent us) (h : us <:+ ts) : Descent ts :=
  { d with suffix := d.suffix.trans h }

/-- The tokens behind a closing parenthesis, if one stands before them. -/
def Token.behindClose : List Token → List Token
  | [] => []
  | token :: rest => if token.kind = .closeParen then rest else token :: rest

theorem Token.behindClose_suffix (ts : List Token) : behindClose ts <:+ ts := by
  cases ts with
  | nil => exact List.suffix_rfl
  | cons t ts =>
    rw [behindClose]
    split
    · exact List.suffix_cons t ts
    · exact List.suffix_rfl

namespace Condition

/-- Reads a level to its end, which is that of the tokens or a closing
parenthesis; the parenthesis is left to the level around it. Terms stand
newest first, and `depth` levels are suspended. -/
def descendFrom (depth : Nat) (record : Record) (terms : List Term) :
    (ts : List Token) → Descent ts
  | [] => ⟨.ok (ofTerms terms.reverse), record, [], List.suffix_rfl⟩
  | token :: rest =>
    match token.kind with
    | .openParen =>
      if depth < maxNesting then
        match descendFrom (depth + 1) record [] rest with
        | ⟨.ok c, inner, left, hleft⟩ =>
          have hsuffix : Token.behindClose left <:+ rest :=
            (Token.behindClose_suffix left).trans hleft
          (descendFrom depth inner (.group c :: terms) (Token.behindClose left)).within
            (hsuffix.trans (List.suffix_cons token rest))
        | ⟨.error e, inner, left, hleft⟩ =>
          ⟨.error e, inner, left, hleft.trans (List.suffix_cons token rest)⟩
      else ⟨.error (.tooDeep maxNesting), record, token :: rest, List.suffix_rfl⟩
    | .closeParen => ⟨.ok (ofTerms terms.reverse), record, token :: rest, List.suffix_rfl⟩
    | .connective c =>
      (descendFrom depth record (.connective c :: terms) rest).within (List.suffix_cons token rest)
    | .word _ =>
      match rest with
      | operator :: predicate :: rest =>
        (descendFrom depth (record.note (.ofTokens token operator predicate))
          (.atom (.ofTokens token operator predicate) :: terms) rest).within
            (List.suffix_append [token, operator, predicate] rest)
      | [] => ⟨.error (.truncated [token.text]), record, [token], List.suffix_rfl⟩
      | [operator] => ⟨.error (.truncated [token.text, operator.text]), record, [token, operator],
          List.suffix_rfl⟩
    | .compare _ | .terminator | .other =>
      (descendFrom depth record terms rest).within (List.suffix_cons token rest)
termination_by ts => ts.length
decreasing_by
  · exact Nat.lt_succ_self rest.length
  · exact Nat.lt_succ_of_le hsuffix.length_le
  · exact Nat.lt_succ_self rest.length
  · simp only [List.length_cons]; omega
  · exact Nat.lt_succ_self rest.length

/-- Reads a condition by descent, and adds to a record. -/
def descend (record : Record) (ts : List Token) : Descent ts := descendFrom 0 record [] ts

/-- How reading goes on where a level has ended: a failure ends it, and so
does the end of the outermost level; what another level stands for is a
group of the level around it. -/
def resume (outer : List (List Term)) (result : Except ParseError Condition)
    (rest : List Token) : Reading :=
  match result, outer with
  | .error e, _ => ⟨.error e, [], rest⟩
  | .ok c, [] => ⟨.ok c, [], rest⟩
  | .ok c, level :: outer => readFrom outer (.group c :: level) (Token.behindClose rest)

/-- Whether a reading is a descent into the level under way, which notes its
atoms in a record, and then what resumes in the levels around it. -/
def Resumes (outer : List (List Term)) (record : Record) {ts : List Token} (d : Descent ts)
    (r : Reading) : Prop :=
  ∃ as, d.record = record.noteAll as ∧ r = (resume outer d.result d.rest).afterAll as

section Resumes

open Levels (Step Halt)

variable {outer : List (List Term)} {terms terms' : List Term} {record : Record}
  {ts us : List Token}

/-- A piece that leaves the suspended levels alone is read first. -/
theorem Resumes.step {p : Piece} (hp : p.IsProper) (hs : Step ⟨outer, terms⟩ p ⟨outer, terms'⟩)
    {d : Descent us} (hsuffix : us <:+ ts)
    (h : Resumes outer (record.noteAll p.atom?.toList) d (readFrom outer terms' us)) :
    Resumes outer record (d.within hsuffix) (readFrom outer terms (p.tokens ++ us)) := by
  obtain ⟨as, hrecord, hread⟩ := h
  refine ⟨p.atom?.toList ++ as, by rw [Record.noteAll_append]; exact hrecord, ?_⟩
  rw [Reading.afterAll_append]
  exact (Levels.read_step hp hs us).trans (congrArg (Reading.afterAll p.atom?.toList) hread)

/-- Where the reader fails nothing resumes. -/
theorem Resumes.halt {e : ParseError} (h : Halt ⟨outer, terms⟩ ts (.error e)) :
    Resumes outer record ⟨.error e, record, ts, List.suffix_rfl⟩ (readFrom outer terms ts) :=
  ⟨[], rfl, Levels.read_halt h⟩

/-- The reader opens a group as a level of its own. -/
theorem readFrom_openParen (h : outer.length < maxNesting) (ts : List Token) :
    readFrom outer terms (Token.openParen :: ts) = readFrom (terms :: outer) [] ts :=
  Levels.read_step (l := ⟨outer, terms⟩) (p := .openParen) trivial (.openParen h) ts

/-- **A level is read as the reader reads it**, and then the levels around
it go on. -/
theorem resumes_readFrom {depth : Nat} (hdepth : outer.length = depth) (record : Record)
    (terms : List Term) (ts : List Token) :
    Resumes outer record (descendFrom depth record terms ts) (readFrom outer terms ts) := by
  fun_induction descendFrom depth record terms ts generalizing outer with
  | case1 => cases outer <;> exact ⟨[], rfl, rfl⟩
  | case2 depth record terms token rest hk hlt c inner left hleft hinner _ ihinner ihbehind =>
    obtain rfl := Token.eq_openParen_of_kind hk
    -- the group is a level of its own, and this one goes on behind it
    obtain ⟨as, hrecord, hread⟩ := @ihinner (terms :: outer) (by simp [hdepth])
    obtain ⟨bs, hrecord', hread'⟩ := ihbehind hdepth
    rw [hinner] at hrecord hread
    refine ⟨as ++ bs, by rw [Record.noteAll_append, ← hrecord]; exact hrecord', ?_⟩
    rw [readFrom_openParen (hdepth ▸ hlt), hread, Reading.afterAll_append]
    exact congrArg (Reading.afterAll as) hread'
  | case3 depth record terms token rest hk hlt e inner left hleft hinner ih =>
    obtain rfl := Token.eq_openParen_of_kind hk
    obtain ⟨as, hrecord, hread⟩ := @ih (terms :: outer) (by simp [hdepth])
    rw [hinner] at hrecord hread
    exact ⟨as, hrecord, (readFrom_openParen (hdepth ▸ hlt) rest).trans hread⟩
  | case4 depth record terms token rest hk hge =>
    obtain rfl := Token.eq_openParen_of_kind hk
    exact .halt (.tooDeep (hdepth ▸ Nat.le_of_not_lt hge))
  | case5 depth record terms token rest hk =>
    obtain rfl := Token.eq_closeParen_of_kind hk
    refine ⟨[], rfl, ?_⟩
    cases outer with
    | nil => exact Levels.read_halt (l := ⟨[], terms⟩) (.stray rfl)
    | cons level outer => exact Levels.read_step (p := .closeParen) trivial .closeParen rest
  | case6 depth record terms token rest c hk ih =>
    obtain rfl := Token.eq_of_kind_connective hk
    exact (ih hdepth).step (p := .connective c) trivial .connective _
  | case7 depth record terms token w hk operator predicate rest ih =>
    have hword : token.isWord = true := Token.exists_kind_eq_word_iff.1 ⟨w, hk⟩
    exact (ih hdepth).step (p := .atom (Atom.ofTokens token operator predicate)) hword .atom _
  | case8 depth record terms token w hk =>
    have hword : token.isWord = true := Token.exists_kind_eq_word_iff.1 ⟨w, hk⟩
    exact .halt (.truncated hword (by simp))
  | case9 depth record terms token w hk operator =>
    have hword : token.isWord = true := Token.exists_kind_eq_word_iff.1 ⟨w, hk⟩
    exact .halt (.truncated hword (by simp))
  | case10 depth record terms token rest op hk ih =>
    exact (ih hdepth).step (p := .idle token) (.inl ⟨op, hk⟩) .idle _
  | case11 depth record terms token rest hk ih =>
    exact (ih hdepth).step (p := .idle token) (.inr (.inl hk)) .idle _
  | case12 depth record terms token rest hk ih =>
    exact (ih hdepth).step (p := .idle token) (.inr (.inr hk)) .idle _

end Resumes

/-- **Descending and reading in one pass are the same.** They give the
same result and leave the same tokens, and the descent notes the atoms
that the reader completes. -/
theorem descend_eq (record : Record) (ts : List Token) :
    (descend record ts).result = (ofTokens ts).result ∧
      (descend record ts).record = record.noteAll (ofTokens ts).atoms ∧
      (descend record ts).rest = (ofTokens ts).rest := by
  obtain ⟨as, hrecord, hread⟩ := @resumes_readFrom [] 0 rfl record [] ts
  have hreading : ofTokens ts = ⟨(descend record ts).result, as, (descend record ts).rest⟩ := by
    rw [ofTokens, hread, descend]
    cases (descendFrom 0 record [] ts).result <;> simp [resume, Reading.afterAll]
  rw [hreading]
  exact ⟨rfl, hrecord, rfl⟩

/-- **A reading that succeeds notes its condition.** The record gets the
subjects of the atoms of the condition, each unless it is there already,
and what is advised about these atoms, both in order. So an empty record
ends with the elements of the condition, and nothing is advised exactly if
every atom is well formed. The reading in one pass completes these atoms
too. -/
theorem noted_of_descend {record : Record} {s : String} {c : Condition}
    (h : (descend record (Token.ofString s)).result = .ok c) :
    (descend record (Token.ofString s)).record.elements =
        record.elements.insertAll (c.atoms.map Atom.subject) ∧
      (record.elements = ∅ →
        (descend record (Token.ofString s)).record.elements = c.elements) ∧
      (descend record (Token.ofString s)).record.advisories =
        record.advisories ++ c.atoms.flatMap Atom.advisories ∧
      ((descend record (Token.ofString s)).record.advisories = record.advisories ↔
        ∀ a ∈ c.atoms, a.isWellFormed = true) ∧
      read s = ⟨.ok c, c.atoms, (descend record (Token.ofString s)).rest⟩ := by
  obtain ⟨hresult, hrecord, hrest⟩ := descend_eq record (Token.ofString s)
  rw [hresult] at h
  have hatoms : c.atoms = (read s).atoms := atoms_of_result h
  rw [hrecord, ← read, ← hatoms, Record.noteAll_eq]
  refine ⟨rfl, fun hempty => ?_, rfl, ?_, ?_⟩
  · simp only [hempty]
    rfl
  · simp only [List.append_right_eq_self, List.flatMap_eq_nil_iff]
    exact forall₂_congr fun _ _ => Atom.advisories_eq_nil_iff
  · rw [hatoms, hrest, ← h]
    rfl

/-- The element that is there already keeps its place, the atom without a
comparison and a number is advised about twice, and the group is read
although it is not closed. -/
theorem noted_of_descend_group :
    (descend ⟨.ofList ["B", "A"], [.invalidOperator "Z" "+"]⟩
        (Token.ofString "A == 1 & (C | & & B >= 2")).result =
        .ok (.sequence [.atom ⟨"A", "==", "1"⟩, .connective .and,
          .group (.sequence [.atom ⟨"C", "|", "&"⟩, .connective .and, .atom ⟨"B", ">=", "2"⟩])]) ∧
      (descend ⟨.ofList ["B", "A"], [.invalidOperator "Z" "+"]⟩
        (Token.ofString "A == 1 & (C | & & B >= 2")).record =
        ⟨.ofList ["B", "A", "C"], [.invalidOperator "Z" "+", .invalidOperator "C" "|",
          .invalidPredicate "C" "&"]⟩ := by
  have hresult : (descend ⟨.ofList ["B", "A"], [.invalidOperator "Z" "+"]⟩
      (Token.ofString "A == 1 & (C | & & B >= 2")).result =
      .ok (.sequence [.atom ⟨"A", "==", "1"⟩, .connective .and,
        .group (.sequence [.atom ⟨"C", "|", "&"⟩, .connective .and, .atom ⟨"B", ">=", "2"⟩])]) := by
    rw [(descend_eq _ _).1]
    decide +kernel
  obtain ⟨helements, -, hadvisories, -⟩ := noted_of_descend hresult
  refine ⟨hresult, ?_⟩
  have hrecord : ∀ r : Record, r = ⟨r.elements, r.advisories⟩ := fun _ => rfl
  rw [hrecord (descend _ _).record, helements, hadvisories]
  decide +kernel

end Condition

end DialogRules
