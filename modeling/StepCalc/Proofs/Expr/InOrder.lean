import StepCalc.Proofs.Expr.Arithmetic
import StepCalc.Proofs.Expr.Numbering
import StepCalc.Proofs.Grammar.Acceptance
import StepCalc.Proofs.Token.Accounting

/-!
# The tree keeps the tokens in order

Walked from left to right, the tree of a text has the tokens of the text other than
parentheses, each with its place, value and width. Tokens do not overlap, so every operator
stands behind its left operand and in front of its right one, at every depth, and the place
of a failure is that of an operator in the text.
-/

namespace StepCalc

/-- What a token and its node in the tree have in common: the kind, the place and, for a
number, the value and the width. -/
structure Mark where
  kind : Kind
  location : Location
  number : Option (Int × Nat)
  deriving DecidableEq, Repr

/-- The offset just after the mark; an operator has one character. -/
def Mark.stop (m : Mark) : Nat :=
  m.location.offset + (m.number.map Prod.snd).getD 1

/-- The decimal value of a number and how many digits it is written with. -/
def Lexeme.number? : Lexeme → Option (Int × Nat)
  | number digits => some (Nat.ofDigitChars 10 digits 0, digits.length)
  | _ => none

def Token.mark (t : Token) : Mark :=
  ⟨t.kind, t.location, t.lexeme.number?⟩

/-- Tokens of this kind are kept in the tree: all but parentheses and the end of the input. -/
def Kind.isKept : Kind → Bool
  | openParen | closeParen | endOfInput => false
  | _ => true

/-- The marks of the tokens that are kept in the tree. -/
def marks (ts : List Token) : List Mark :=
  (ts.filter (·.kind.isKept)).map Token.mark

namespace Expr

/-- The nodes from left to right: each operator between its operands. -/
def marks : Expr → List Mark
  | literal v l width => [⟨.number, l, some (v.toInt, width)⟩]
  | binary op left right l => left.marks ++ ⟨.operator op, l, none⟩ :: right.marks

end Expr

section Reading

@[simp] theorem marks_append (ts us : List Token) : marks (ts ++ us) = marks ts ++ marks us := by
  simp [marks]

@[simp] theorem marks_cons_operator (op : Op) (l : Location) (ts : List Token) :
    marks (⟨.operator op, l⟩ :: ts) = ⟨.operator op, l, none⟩ :: marks ts := rfl

@[simp] theorem marks_cons_openParen (l : Location) (ts : List Token) :
    marks (⟨.openParen, l⟩ :: ts) = marks ts := rfl

@[simp] theorem marks_closeParen (l : Location) : marks [⟨.closeParen, l⟩] = [] := rfl

@[simp] theorem marks_endOfInput (l : Location) : marks [⟨.endOfInput, l⟩] = [] := rfl

/-- Nothing is lost, added or moved on the way from a word to its tree. -/
theorem Derives.marks_eq {goal : Goal} {ts : List Token} {e : Expr} (h : Derives goal ts e)
    (hts : InRange ts) : e.marks = marks ts := by
  induction h using leftRec with
  | number digits l =>
      have hle := inRange_number.1 hts
      simp only [Expr.marks, Value.toInt_ofNat hle]
      rfl
  | group l r inside ih =>
      simp [ih (inRange_parenthesized.1 hts)]
  | ofFactor _ ih | ofTerm _ ih => exact ih hts
  | product l _ _ _ ihl ihr | sum l _ _ _ ihl ihr =>
      obtain ⟨hts, hus⟩ := inRange_operation.1 hts
      simp [Expr.marks, ihl hts, ihr hus]

theorem Spells.marks_eq {source : String} {e : Expr} (h : Spells source e) :
    e.marks = marks (tokenize source) := by
  rw [h.derivation.marks_eq h.numbers, tokenize_eq, List.dropLast_concat, marks_append,
    marks_endOfInput, List.append_nil]

end Reading

section Order

theorem tokenization_tokenize (source : String) :
    Tokenization source.toList (tokenize source) :=
  (readsAs_tokenize source).tokenization

theorem Token.stop_mark {t : Token} (h : t.lexeme ≠ .endOfInput) : t.mark.stop = t.stop := by
  obtain ⟨x, l⟩ := t
  cases x with
  | endOfInput => exact absurd rfl h
  | _ => rfl

/-- The first mark ends before the second begins. -/
def Mark.Before (m m' : Mark) : Prop :=
  m.stop ≤ m'.location.offset

theorem pairwise_marks_tokenize (source : String) :
    (marks (tokenize source)).Pairwise Mark.Before := by
  have hordered := (tokenization_tokenize source).ordered.filter (·.kind.isKept)
  refine List.pairwise_map.2 (hordered.imp_of_mem fun {t u} ht _ hbefore => ?_)
  have hend : t.lexeme ≠ .endOfInput := by
    intro hend
    simp [Token.kind, hend, Lexeme.kind, Kind.isKept] at ht
  rw [Mark.Before, Token.stop_mark hend]
  exact hbefore.2

namespace Expr

/-- Every operator stands behind its left operand and in front of its right one. -/
def InPlace : Expr → Prop
  | literal .. => True
  | binary _ left right l =>
      left.InPlace ∧ right.InPlace ∧ left.lastOffset ≤ l.offset ∧ l.offset < right.firstOffset

theorem exists_mark_first (e : Expr) : ∃ m ∈ e.marks, m.location.offset = e.firstOffset := by
  induction e with
  | literal => exact ⟨_, List.mem_singleton_self _, rfl⟩
  | binary op left right l ihl ihr =>
      obtain ⟨m, hm, hoffset⟩ := ihl
      exact ⟨m, List.mem_append_left _ hm, hoffset⟩

theorem exists_mark_last (e : Expr) : ∃ m ∈ e.marks, m.stop = e.lastOffset := by
  induction e with
  | literal => exact ⟨_, List.mem_singleton_self _, rfl⟩
  | binary op left right l ihl ihr =>
      obtain ⟨m, hm, hstop⟩ := ihr
      exact ⟨m, List.mem_append_right _ (List.mem_cons_of_mem _ hm), hstop⟩

theorem inPlace_of_pairwise {e : Expr} (h : e.marks.Pairwise Mark.Before) : e.InPlace := by
  induction e with
  | literal => trivial
  | binary op left right l ihl ihr =>
      obtain ⟨hleft, hrest, hcross⟩ := List.pairwise_append.1 h
      obtain ⟨hop, hright⟩ := List.pairwise_cons.1 hrest
      -- the marks next to the operator are where the spans of its operands end and begin
      refine ⟨ihl hleft, ihr hright, ?_, ?_⟩
      · obtain ⟨m, hm, hstop⟩ := left.exists_mark_last
        rw [← hstop]
        exact hcross m hm _ (List.mem_cons_self ..)
      · obtain ⟨m, hm, hoffset⟩ := right.exists_mark_first
        rw [← hoffset]
        exact hop m hm

theorem InPlace.firstOffset_le_lastOffset {e : Expr} (h : e.InPlace) :
    e.firstOffset ≤ e.lastOffset := by
  induction e with
  | literal => exact Nat.le_add_right _ _
  | binary op left right l ihl ihr =>
      obtain ⟨hleft, hright, hbehind, hfront⟩ := h
      have := ihl hleft
      have := ihr hright
      simp only [firstOffset, lastOffset]
      omega

theorem InPlace.nodeAt {e f : Expr} {n i : Nat} (h : e.InPlace) (hf : e.NodeAt n i f) :
    f.InPlace := by
  induction hf with
  | root => exact h
  | left op right l _ ih => exact ih h.1
  | right op left l _ ih => exact ih h.2.1

end Expr

end Order

/-- The range `s` lies within the range `t`. -/
def Span.Within (s t : Span) : Prop :=
  t.start ≤ s.start ∧ s.stop ≤ t.stop

/-- In the outline of `e`, operator `n` stands between its operands `i` and `j`, and covers
both. -/
def Expr.StandsBetween (e : Expr) (n i j : Nat) : Prop :=
  ∃ p q r, e.outline[n]? = some p ∧ e.outline[i]? = some q ∧ e.outline[j]? = some r ∧
    q.node.span.stop ≤ p.node.location.offset ∧ p.node.location.offset < r.node.span.start ∧
    q.node.span.Within p.node.span ∧ r.node.span.Within p.node.span

theorem Expr.InPlace.standsBetween {e left right : Expr} {op : Op} {l : Location} {n : Nat}
    (h : e.InPlace) (hnode : e.NodeAt 0 n (binary op left right l)) :
    e.StandsBetween n (n + 1) (n + 1 + left.size) := by
  obtain ⟨hleft, hright⟩ := hnode.operands
  obtain ⟨d, hd⟩ := nodeAt_iff_outline.1 hnode
  obtain ⟨d', hd'⟩ := nodeAt_iff_outline.1 hleft
  obtain ⟨d'', hd''⟩ := nodeAt_iff_outline.1 hright
  obtain ⟨hinLeft, hinRight, hbehind, hfront⟩ := h.nodeAt hnode
  have hle := hinLeft.firstOffset_le_lastOffset
  have hle' := hinRight.firstOffset_le_lastOffset
  refine ⟨_, _, _, hd, hd', hd'', hbehind, hfront, ?_, ?_⟩
  · simp only [Span.Within, span, firstOffset, lastOffset]
    omega
  · simp only [Span.Within, span, firstOffset, lastOffset]
    omega

section Failure

theorem Op.location?_of_apply {op : Op} {a b : Value} {l : Location} {err : EvalError}
    (h : op.apply a b l = .error err) : err.location? = some l := by
  rcases apply_eq_error_iff.1 h with ⟨-, -, rfl⟩ | ⟨n, -, -, rfl⟩
  · rfl
  · rfl

theorem Expr.mem_marks_of_mem_operators {e left right : Expr} {op : Op} {l : Location}
    (h : binary op left right l ∈ e.operators) : ⟨.operator op, l, none⟩ ∈ e.marks := by
  induction e with
  | literal => simp [operators] at h
  | binary op' left' right' l' ihl ihr =>
      simp only [operators, List.mem_append, List.mem_singleton] at h
      simp only [marks, List.mem_append, List.mem_cons]
      rcases h with (h | h) | h
      · exact .inl (ihl h)
      · exact .inr (.inr (ihr h))
      · cases h
        exact .inr (.inl rfl)

/-- An evaluation fails at one of the operators. -/
theorem Expr.exists_mark_of_eval_error {e : Expr} {err : EvalError} (h : e.eval = .error err) :
    ∃ op l, err.location? = some l ∧ ⟨.operator op, l, none⟩ ∈ e.marks := by
  obtain ⟨before, op, left, right, l, after, a, b, hops, -, -, -, happly⟩ := exists_failsAfter h
  have hmem : binary op left right l ∈ e.operators := by simp [hops]
  exact ⟨op, l, Op.location?_of_apply happly, mem_marks_of_mem_operators hmem⟩

theorem exists_eval_error_of_evaluate {source : String} {e : Expr} {err : Error}
    (h : parse source = .ok e) (herr : evaluate source = .error err) :
    ∃ err', err = .eval err' ∧ e.eval = .error err' := by
  have hvalue : e.eval.mapError Error.eval = .error err := by
    rw [← herr, evaluate, h]
  cases heval : e.eval with
  | ok v =>
      rw [heval] at hvalue
      cases hvalue
  | error err' =>
      rw [heval] at hvalue
      exact ⟨err', (Except.error.inj hvalue).symm, rfl⟩

/-- `l` is the place of an operator in the text. -/
def IsOperatorPlace (source : String) (l : Location) : Prop :=
  l = .ofOffset source.toList l.offset ∧
    ∃ op : Op, source.toList[l.offset]? = some op.symbol

theorem isOperatorPlace_of_mem_marks {source : String} {op : Op} {l : Location}
    (h : ⟨.operator op, l, none⟩ ∈ marks (tokenize source)) : IsOperatorPlace source l := by
  obtain ⟨⟨x, k⟩, ht, hmark⟩ := List.mem_map.1 h
  have hmem := (List.mem_filter.1 ht).1
  obtain ⟨hkind, rfl, -⟩ := Mark.mk.inj hmark
  obtain rfl : x = .operator op := by
    cases x <;> simp_all [Token.kind, Lexeme.kind]
  have htokens := tokenization_tokenize source
  have hcovers := htokens.covers_offset hmem (by simp)
  obtain ⟨c, hc, hchar⟩ := htokens.exists_char_of_covers hmem hcovers
  obtain rfl : c = op.symbol := by simpa [Lexeme.chars] using hc
  exact ⟨htokens.placed _ hmem, op, hchar⟩

end Failure

/-- The tree of a text has its tokens in order, each with its place. So every operator
stands between its operands and covers them, and whatever fails fails at an operator of
the text. -/
theorem tree_keeps_tokens_in_order {source : String} {e : Expr} (h : parse source = .ok e) :
    e.marks = marks (tokenize source) ∧
      (∀ n op left right l, e.NodeAt 0 n (.binary op left right l) →
        ∃ i j, e.operands n = some (i, j) ∧ e.NodeAt 0 i left ∧ e.NodeAt 0 j right ∧
          e.StandsBetween n i j) ∧
      ∀ err, evaluate source = .error err →
        ∃ l, err.location? = some l ∧ IsOperatorPlace source l := by
  have hmarks : e.marks = marks (tokenize source) := (spells_of_parse_eq h).marks_eq
  have hinPlace : e.InPlace := Expr.inPlace_of_pairwise (hmarks ▸ pairwise_marks_tokenize source)
  refine ⟨hmarks, fun n op left right l hnode => ?_, fun err herr => ?_⟩
  · obtain ⟨hleft, hright⟩ := hnode.operands
    have hoperands : e.operands n = some (n + 1, n + 1 + left.size) :=
      Expr.operands_eq_some_iff.2 ⟨op, left, right, l, hnode, rfl, rfl⟩
    exact ⟨_, _, hoperands, hleft, hright, hinPlace.standsBetween hnode⟩
  · obtain ⟨err', rfl, heval⟩ := exists_eval_error_of_evaluate h herr
    obtain ⟨op, l, hl, hmem⟩ := Expr.exists_mark_of_eval_error heval
    exact ⟨l, hl, isOperatorPlace_of_mem_marks (hmarks ▸ hmem)⟩

/-- The expression read from `(7)/(2-2)`. -/
def groupedDivisor : Expr :=
  .binary .div (.literal 7 ⟨1, 1, 2⟩ 1)
    (.binary .sub (.literal 2 ⟨5, 1, 6⟩ 1) (.literal 2 ⟨7, 1, 8⟩ 1) ⟨6, 1, 7⟩) ⟨3, 1, 4⟩

theorem parse_groupedDivisor : parse "(7)/(2-2)" = .ok groupedDivisor := by
  have hscan : (Cursor.ofString "(7)/(2-2)").scan =
      ⟨[⟨.openParen, ⟨0, 1, 1⟩⟩, ⟨.number ['7'], ⟨1, 1, 2⟩⟩, ⟨.closeParen, ⟨2, 1, 3⟩⟩,
        ⟨.operator .div, ⟨3, 1, 4⟩⟩, ⟨.openParen, ⟨4, 1, 5⟩⟩, ⟨.number ['2'], ⟨5, 1, 6⟩⟩,
        ⟨.operator .sub, ⟨6, 1, 7⟩⟩, ⟨.number ['2'], ⟨7, 1, 8⟩⟩, ⟨.closeParen, ⟨8, 1, 9⟩⟩],
        ⟨9, 1, 10⟩⟩ := by
    decide +kernel
  rw [parse_eq_verdict_advance, hscan]
  rfl

/-- `(7)/(2-2)` fails at its division sign, which stands between the two groups. -/
theorem tree_keeps_tokens_in_order_groupedDivisor :
    parse "(7)/(2-2)" = .ok groupedDivisor ∧
      groupedDivisor.marks = marks (tokenize "(7)/(2-2)") ∧ groupedDivisor.StandsBetween 0 1 2 ∧
      evaluate "(7)/(2-2)" = .error (.eval (.divisionByZero ⟨3, 1, 4⟩)) ∧
      IsOperatorPlace "(7)/(2-2)" ⟨3, 1, 4⟩ := by
  have hevaluate : evaluate "(7)/(2-2)" = .error (.eval (.divisionByZero ⟨3, 1, 4⟩)) := by
    rw [evaluate, parse_groupedDivisor]
    rfl
  obtain ⟨hmarks, hbetween, hfailure⟩ := tree_keeps_tokens_in_order parse_groupedDivisor
  obtain ⟨i, j, hoperands, -, -, hstands⟩ := hbetween 0 _ _ _ _ (.root groupedDivisor 0)
  obtain ⟨rfl, rfl⟩ : 1 = i ∧ 2 = j := Prod.mk.inj (Option.some.inj hoperands)
  obtain ⟨l, hl, hplace⟩ := hfailure _ hevaluate
  obtain rfl := Option.some.inj hl
  exact ⟨parse_groupedDivisor, hmarks, hstands, hevaluate, hplace⟩

end StepCalc
