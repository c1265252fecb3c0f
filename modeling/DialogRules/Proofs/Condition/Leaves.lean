import DialogRules.Proofs.Condition.Atoms

/-!
# The leaves of what was read

The leaves of a condition are its atoms and its connectives, those inside
groups too, in the order of writing. A flat scan finds leaves in tokens:
it goes from left to right, builds nothing, and all that it keeps of the
parentheses is how many are open (`Leaf.scan`). Reading keeps a level for
each of them and unwraps the lone operands, and still no leaf is lost,
doubled or moved: the leaves of a condition are those that the scan finds
in its tokens, and the reader leaves the tokens that the scan does not
come to (`Condition.leaves_eq_scan`).
-/

namespace DialogRules

/-- What a condition consists of beside its groups. -/
inductive Leaf where
  | atom (atom : Atom)
  | connective (connective : Connective)
deriving DecidableEq

mutual

/-- The leaves of a condition, groups included, in the order of
writing. -/
def Condition.leaves : Condition → List Leaf
  | .atom a => [.atom a]
  | .sequence terms => Term.leavesOfList terms

/-- The leaves of a term, in the order of writing. -/
def Term.leaves : Term → List Leaf
  | .atom a => [.atom a]
  | .connective c => [.connective c]
  | .group inner => inner.leaves

/-- The leaves of a level, in the order of writing. -/
def Term.leavesOfList : List Term → List Leaf
  | [] => []
  | t :: ts => t.leaves ++ Term.leavesOfList ts

end

theorem Term.leavesOfList_eq_flatMap (ts : List Term) :
    Term.leavesOfList ts = ts.flatMap Term.leaves := by
  induction ts with
  | nil => rfl
  | cons t ts ih => rw [Term.leavesOfList, ih, List.flatMap_cons]

/-- **Unwrapping a level loses no leaf.** -/
theorem Condition.leaves_ofTerms (terms : List Term) :
    (ofTerms terms).leaves = terms.flatMap Term.leaves := by
  fun_cases ofTerms terms <;> simp [leaves, Term.leaves, Term.leavesOfList_eq_flatMap]

/-! ## Leaves of pieces -/

namespace Piece

/-- The leaf that a piece is, if it is one. -/
def leaf? : Piece → Option Leaf
  | atom a => some (.atom a)
  | connective c => some (.connective c)
  | openParen | closeParen | idle _ => none

/-- The leaves among some pieces, in order. -/
def leavesOf (ps : List Piece) : List Leaf := ps.filterMap leaf?

@[simp] theorem leavesOf_cons (p : Piece) (ps : List Piece) :
    leavesOf (p :: ps) = p.leaf?.toList ++ leavesOf ps := by
  cases h : p.leaf? <;> simp [leavesOf, h]

/-- The leaves among some pieces are those of their terms. -/
theorem flatMap_leaves_termsOf (ps : List Piece) :
    (termsOf ps).flatMap Term.leaves = leavesOf ps := by
  induction ps with
  | nil => rfl
  | cons p ps ih =>
    rw [termsOf_cons, List.flatMap_append, ih, leavesOf_cons]
    cases p <;> rfl

end Piece

/-- Leaves are collected through groups and unwrapped levels alike. -/
theorem Levels.collects_leaves : Collects Term.leaves Condition.leaves :=
  ⟨Condition.leaves_ofTerms, fun _ => rfl⟩

/-- **The leaves of a condition are those of the run that built it.** -/
theorem Levels.Run.leaves_close {l : Levels} {ps : List Piece} (h : Run initial ps l) :
    l.close.leaves = Piece.leavesOf ps := by
  rw [collects_leaves.of_run h, Piece.flatMap_leaves_termsOf]

/-! ## The flat scan -/

namespace Leaf

/-- What a scan finds, and the tokens that it does not come to. -/
structure Scan where
  /-- The leaves that were found, in order. -/
  leaves : List Leaf
  /-- The tokens that were not scanned. -/
  rest : List Token
deriving DecidableEq

/-- The scan with some leaves found before everything else in it. -/
def Scan.after (found : List Leaf) (s : Scan) : Scan :=
  { s with leaves := found ++ s.leaves }

/-- Finds the leaves in some tokens, from left to right, when `depth`
parentheses are open before them. A word is an atom with the next two
tokens, whatever they are, and a connective is a leaf by itself; nothing
else gives one. The scan ends at a closing parenthesis when none is open,
and at a word without two tokens behind it. -/
def scan : (depth : Nat) → List Token → Scan
  | _, [] => ⟨[], []⟩
  | depth, token :: rest =>
    match token.kind with
    | .openParen => scan (depth + 1) rest
    | .closeParen =>
      match depth with
      | 0 => ⟨[], token :: rest⟩
      | depth + 1 => scan depth rest
    | .connective c => (scan depth rest).after [.connective c]
    | .word _ =>
      match rest with
      | operator :: predicate :: rest =>
        (scan depth rest).after [.atom ⟨token.text, operator.text, predicate.text⟩]
      | [] => ⟨[], [token]⟩
      | [operator] => ⟨[], [token, operator]⟩
    | .compare _ | .terminator | .other => scan depth rest

@[simp] theorem Scan.after_nil (s : Scan) : s.after [] = s := rfl

theorem Scan.after_append (found found' : List Leaf) (s : Scan) :
    s.after (found ++ found') = (s.after found').after found := by
  simp [after]

theorem scan_of_isWord {depth : Nat} {t o p : Token} (h : t.isWord = true) (ts : List Token) :
    scan depth (t :: o :: p :: ts) =
      (scan depth ts).after [.atom ⟨t.text, o.text, p.text⟩] := by
  obtain ⟨w, hw⟩ := Token.exists_kind_eq_word_iff.2 h
  cases depth <;> simp [scan, hw]

open Levels (Step Run Halt)

variable {l l' : Levels}

/-- The scan counts the levels that the reader keeps. -/
theorem scan_step {p : Piece} (hp : p.IsProper) (h : Step l p l') (ts : List Token) :
    scan l.outer.length (p.tokens ++ ts) = (scan l'.outer.length ts).after p.leaf?.toList := by
  cases h with
  | openParen =>
    rw [Piece.tokens, List.singleton_append, scan.eq_def]
    simp [Piece.leaf?]
  | closeParen =>
    rw [Piece.tokens, List.singleton_append, scan.eq_def]
    simp [Piece.leaf?]
  | connective =>
    rw [Piece.tokens, List.singleton_append, scan.eq_def]
    simp [Levels.push, Piece.leaf?]
  | @atom l a =>
    have hword : Token.isWord ⟨a.subject⟩ = true := hp
    rw [Piece.tokens, List.cons_append, List.cons_append, List.singleton_append,
      scan_of_isWord hword]
    rfl
  | @idle l t =>
    rw [Piece.tokens, List.singleton_append, scan.eq_def]
    rcases hp with ⟨op, hk⟩ | hk | hk <;> simp [hk, Piece.leaf?]

/-- **The scan follows the run**, and finds the leaves of its pieces. -/
theorem scan_run {ps : List Piece} (hps : ∀ p ∈ ps, p.IsProper) (h : Run l ps l')
    (ts : List Token) :
    scan l.outer.length (Piece.tokensOf ps ++ ts) =
      (scan l'.outer.length ts).after (Piece.leavesOf ps) := by
  induction h with
  | nil => rfl
  | cons step _ ih =>
    obtain ⟨hp, hps⟩ := List.forall_mem_cons.1 hps
    rw [Piece.tokensOf_cons, List.append_assoc, scan_step hp step, ih hps, Piece.leavesOf_cons,
      Scan.after_append]

/-- Where the reader halts without a failure the scan ends. -/
theorem scan_halt {ts : List Token} {c : Condition} (h : Halt l ts (.ok c)) :
    scan l.outer.length ts = ⟨[], ts⟩ := by
  cases h with
  | done => rfl
  | stray hout =>
    rw [hout, scan.eq_def]
    simp

end Leaf

/-- What the reader leaves unread, if it does not fail, is nothing or
starts with a closing parenthesis. -/
theorem Levels.Halt.rest_eq {l : Levels} {ts : List Token} {c : Condition}
    (h : Halt l ts (.ok c)) : ts = [] ∨ ∃ us, ts = Token.closeParen :: us := by
  cases h with
  | done => exact .inl rfl
  | stray => exact .inr ⟨_, rfl⟩

namespace Condition

/-- **Reading loses, doubles and moves nothing.** The leaves of a
condition that was read are those that the flat scan finds in its tokens.
The reader leaves unread what the scan does not come to: the end of the
tokens, which is empty or starts with a closing parenthesis that closes
nothing. -/
theorem leaves_eq_scan {ts : List Token} {c : Condition} (h : (ofTokens ts).result = .ok c) :
    c.leaves = (Leaf.scan 0 ts).leaves ∧
      (ofTokens ts).rest = (Leaf.scan 0 ts).rest ∧ (ofTokens ts).rest <:+ ts ∧
      ((ofTokens ts).rest = [] ∨ ∃ us, (ofTokens ts).rest = Token.closeParen :: us) := by
  obtain ⟨ps, l, rest, r, hps, hrun, hhalt, rfl, hread⟩ := exists_run_ofTokens ts
  rw [hread] at h ⊢
  have hresult : r = .ok c := h
  subst hresult
  have hscan : Leaf.scan 0 (Piece.tokensOf ps ++ rest) = ⟨Piece.leavesOf ps, rest⟩ := by
    have hpieces := Leaf.scan_run hps hrun rest
    rw [Leaf.scan_halt hhalt, Leaf.Scan.after, List.append_nil] at hpieces
    exact hpieces
  have hleaves : c.leaves = Piece.leavesOf ps := by rw [hhalt.eq_close, hrun.leaves_close]
  refine ⟨?_, ?_, List.suffix_append _ _, hhalt.rest_eq⟩
  · rw [hleaves, hscan]
  · rw [hscan]

/-- Four of the parentheses stand inside atoms, and behind the others one
too many closes: the reader and the scan stop there, before a word that is
cut short. -/
theorem leaves_eq_scan_parens_in_atoms :
    (ofTokens (Token.ofString "(A ) ( & ((B == ))) | C >= )) ) & D")).result =
        .ok (.sequence [.atom ⟨"A", ")", "("⟩, .connective .and,
          .group (.atom ⟨"B", "==", ")"⟩), .connective .or, .atom ⟨"C", ">=", ")"⟩]) ∧
      leaves (.sequence [.atom ⟨"A", ")", "("⟩, .connective .and,
          .group (.atom ⟨"B", "==", ")"⟩), .connective .or, .atom ⟨"C", ">=", ")"⟩]) =
        (Leaf.scan 0 (Token.ofString "(A ) ( & ((B == ))) | C >= )) ) & D")).leaves ∧
      (Leaf.scan 0 (Token.ofString "(A ) ( & ((B == ))) | C >= )) ) & D")).rest =
        [⟨")"⟩, ⟨"&"⟩, ⟨"D"⟩] := by
  have hresult : (ofTokens (Token.ofString "(A ) ( & ((B == ))) | C >= )) ) & D")).result =
      .ok (.sequence [.atom ⟨"A", ")", "("⟩, .connective .and,
        .group (.atom ⟨"B", "==", ")"⟩), .connective .or, .atom ⟨"C", ">=", ")"⟩]) := by
    decide +kernel
  obtain ⟨hleaves, hrest, -, -⟩ := leaves_eq_scan hresult
  refine ⟨hresult, hleaves, ?_⟩
  rw [← hrest]
  decide +kernel

end Condition

end DialogRules
