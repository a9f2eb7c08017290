import StepCalc.Proofs.Expr.Words
import StepCalc.Proofs.Grammar.Acceptance

/-!
# Written expressions are read back

Tokens that spell the words of an expression without negative literals derive an
expression of the same shape: where an operand binds too loosely for its place it
stands in parentheses, and a parenthesized word is a factor. Conversely no word
that derives an expression is nested less deeply than the expression is written.
-/

namespace StepCalc

namespace Expr

/-- The expression without places and widths. -/
def bare : Expr → Expr
  | literal v _ _ => literal v .start 0
  | binary op left right _ => binary op left.bare right.bare .start

/-- No literal is negative. -/
def Nonnegative : Expr → Prop
  | literal v _ _ => 0 ≤ v.toInt
  | binary _ left right _ => left.Nonnegative ∧ right.Nonnegative

instance decidableNonnegative : (e : Expr) → Decidable e.Nonnegative
  | literal v _ _ => inferInstanceAs (Decidable (0 ≤ v.toInt))
  | binary _ left right _ =>
      have := left.decidableNonnegative
      have := right.decidableNonnegative
      inferInstanceAs (Decidable (left.Nonnegative ∧ right.Nonnegative))

/-- The part of the grammar that an expression belongs to as it is written. -/
def goal : Expr → Goal
  | literal .. => .factor
  | binary .mul .. | binary .div .. => .term
  | binary .add .. | binary .sub .. => .expression

end Expr

/-- How tightly a word of the goal holds together. -/
def Goal.level : Goal → Nat
  | factor => 3
  | term => 2
  | expression => 1

theorem Expr.level_goal (e : Expr) : e.goal.level = e.binding := by
  cases e with
  | literal => rfl
  | binary op => cases op <;> rfl

/-- Every expression is written at least as tightly as an expression must be. -/
theorem Expr.level_expression_le (e : Expr) : Goal.expression.level ≤ e.goal.level := by
  rw [e.level_goal]
  exact e.binding_pos

/-- A word of a tighter goal is one of a looser goal. -/
theorem Derives.loosen {goal goal' : Goal} {ts : List Token} {e : Expr} (h : Derives goal ts e)
    (hlevel : goal'.level ≤ goal.level) : Derives goal' ts e := by
  cases goal with
  | factor =>
      cases goal' with
      | factor => exact h
      | term => exact h.ofFactor
      | expression => exact h.ofFactor.ofTerm
  | term =>
      cases goal' with
      | factor => simp [Goal.level] at hlevel
      | term => exact h
      | expression => exact h.ofTerm
  | expression =>
      cases goal' with
      | expression => exact h
      | _ => simp [Goal.level] at hlevel

section Reading

theorem Value.natAbs_le_largest {v : Value} (h : 0 ≤ v.toInt) : v.toInt.natAbs ≤ largest := by
  have := v.toInt_lt
  simp only [largest]
  omega

theorem Value.ofNat_digits {v : Value} (h : 0 ≤ v.toInt) :
    Int64.ofNat (Nat.ofDigitChars 10 v.digits 0) = v := by
  apply Int64.toInt.inj
  rw [digits, Nat.ofDigitChars_ten_toDigits, toInt_ofNat (natAbs_le_largest h)]
  omega

/-- `ts` derives an expression from `goal` that is `e` but for places and widths. -/
def DerivesBare (goal : Goal) (ts : List Token) (e : Expr) : Prop :=
  ∃ e', Derives goal ts e' ∧ e'.bare = e.bare

/-- An operand is written as a word of the goal in whose place it stands. -/
theorem DerivesBare.ofGroup {e : Expr} {goal : Goal} {ts : List Token}
    (h : ∀ ts, ts.map Token.lexeme = e.words → DerivesBare e.goal ts e)
    (hts : ts.map Token.lexeme = group (decide (e.binding < goal.level)) e.words) :
    DerivesBare goal ts e := by
  by_cases hb : e.binding < goal.level
  · simp only [group, hb, decide_true, if_true] at hts
    obtain ⟨⟨x, l⟩, us, rfl, hx, hus⟩ := List.map_eq_cons_iff.1 hts
    obtain ⟨body, vs, rfl, hbody, hvs⟩ := List.map_eq_append_iff.1 hus
    obtain ⟨⟨y, r⟩, ws, rfl, hy, hws⟩ := List.map_eq_cons_iff.1 hvs
    obtain rfl := List.map_eq_nil_iff.1 hws
    obtain rfl : x = .openParen := hx
    obtain rfl : y = .closeParen := hy
    obtain ⟨e', hder, hbare⟩ := h body hbody
    have hexpr : Derives .expression body e' := hder.loosen e.level_expression_le
    refine ⟨e', (hexpr.group l r).loosen ?_, hbare⟩
    cases goal <;> decide
  · simp only [group, hb, decide_false, Bool.false_eq_true, if_false] at hts
    obtain ⟨e', hder, hbare⟩ := h ts hts
    refine ⟨e', hder.loosen ?_, hbare⟩
    rw [e.level_goal]
    omega

/-- The words of an expression derive it. -/
theorem Expr.derivesBare {e : Expr} (he : e.Nonnegative) {ts : List Token}
    (hts : ts.map Token.lexeme = e.words) : DerivesBare e.goal ts e := by
  induction e generalizing ts with
  | literal v l width =>
      rw [words, Value.words_of_nonneg he] at hts
      obtain ⟨⟨x, k⟩, us, rfl, hx, hus⟩ := List.map_eq_cons_iff.1 hts
      obtain rfl := List.map_eq_nil_iff.1 hus
      obtain rfl : x = .number v.digits := hx
      refine ⟨_, .number v.digits k, ?_⟩
      rw [Value.ofNat_digits he]
      rfl
  | binary op left right l ihl ihr =>
      obtain ⟨us, ws, rfl, hus, hws⟩ := List.map_eq_append_iff.1 hts
      obtain ⟨⟨x, k⟩, vs, rfl, hx, hvs⟩ := List.map_eq_cons_iff.1 hws
      obtain rfl : x = .operator op := hx
      have hleft : ∀ goal : Goal, goal.level = op.precedence → DerivesBare goal us left := by
        intro goal hgoal
        refine .ofGroup (fun ts hts => ihl he.1 hts) ?_
        rw [hgoal, hus]
      have hright : ∀ goal : Goal, goal.level = op.precedence + 1 → DerivesBare goal vs right := by
        intro goal hgoal
        refine .ofGroup (fun ts hts => ihr he.2 hts) ?_
        simp only [hgoal, hvs, Nat.lt_succ_iff]
      have hsum : op = .add ∨ op = .sub →
          DerivesBare .expression (us ++ ⟨.operator op, k⟩ :: vs) (binary op left right l) := by
        intro hop
        obtain ⟨e', he', hbare⟩ := hleft .expression (by rcases hop with rfl | rfl <;> rfl)
        obtain ⟨f', hf', hbare'⟩ := hright .term (by rcases hop with rfl | rfl <;> rfl)
        exact ⟨_, he'.sum k hop hf', by simp [bare, hbare, hbare']⟩
      have hproduct : op = .mul ∨ op = .div →
          DerivesBare .term (us ++ ⟨.operator op, k⟩ :: vs) (binary op left right l) := by
        intro hop
        obtain ⟨e', he', hbare⟩ := hleft .term (by rcases hop with rfl | rfl <;> rfl)
        obtain ⟨f', hf', hbare'⟩ := hright .factor (by rcases hop with rfl | rfl <;> rfl)
        exact ⟨_, he'.product k hop hf', by simp [bare, hbare, hbare']⟩
      cases op with
      | add => exact hsum (.inl rfl)
      | sub => exact hsum (.inr rfl)
      | mul => exact hproduct (.inl rfl)
      | div => exact hproduct (.inr rfl)

theorem mem_group {x : Lexeme} {needed : Bool} {xs : List Lexeme} (h : x ∈ group needed xs) :
    x = .openParen ∨ x ∈ xs ∨ x = .closeParen := by
  cases needed with
  | false => exact .inr (.inl h)
  | true => simpa [group] using h

theorem Expr.inRange_words {e : Expr} (he : e.Nonnegative) {digits : List Char}
    (h : .number digits ∈ e.words) : Nat.ofDigitChars 10 digits 0 ≤ Value.largest := by
  induction e with
  | literal v l width =>
      rw [words, Value.words_of_nonneg he, List.mem_singleton, Lexeme.number.injEq] at h
      rw [h, Value.digits, Nat.ofDigitChars_ten_toDigits]
      exact Value.natAbs_le_largest he
  | binary op left right l ihl ihr =>
      simp only [words, List.mem_append, List.mem_cons, reduceCtorEq, false_or] at h
      rcases h with h | h
      · exact ihl he.1 (by simpa using mem_group h)
      · exact ihr he.2 (by simpa using mem_group h)

theorem Expr.inRange_of_map_eq {e : Expr} (he : e.Nonnegative) {ts : List Token}
    (hts : ts.map Token.lexeme = e.words) : InRange ts := by
  intro t ht digits hx
  apply e.inRange_words he
  rw [← hts, ← hx]
  exact List.mem_map_of_mem ht

end Reading

section Writing

/-- What is read holds no negative literal. -/
theorem Derives.nonnegative {goal : Goal} {ts : List Token} {e : Expr} (h : Derives goal ts e)
    (hts : InRange ts) : e.Nonnegative := by
  induction h using leftRec with
  | number digits l =>
      have hle := inRange_number.1 hts
      change 0 ≤ (Int64.ofNat _).toInt
      rw [Value.toInt_ofNat hle]
      exact Int.natCast_nonneg _
  | group l r inside ih => exact ih (inRange_parenthesized.1 hts)
  | ofFactor _ ih | ofTerm _ ih => exact ih hts
  | product l _ _ _ ihl ihr | sum l _ _ _ ihl ihr =>
      obtain ⟨hts, hus⟩ := inRange_operation.1 hts
      exact ⟨ihl hts, ihr hus⟩

/-- An expression is written with no deeper nesting than any word that derives it, in
the place of any goal. -/
theorem Derives.nestingAt_le {goal : Goal} {ts : List Token} {e : Expr} (h : Derives goal ts e)
    (hts : InRange ts) : e.nestingAt goal.level ≤ nesting (ts.map Token.lexeme) := by
  induction h using leftRec with
  | number digits l =>
      have hnonneg := (number digits l).nonnegative hts
      rw [Expr.nestingAt_eq, Expr.words, Value.words_of_nonneg hnonneg]
      simp [Expr.binding, Goal.level, nesting, Lexeme.balance]
  | @group body e l r inside ih =>
      have hbody := ih (inRange_parenthesized.1 hts)
      rw [map_lexeme_parenthesized, nesting_group inside.balance_eq_zero]
      have hpos := e.binding_pos
      simp only [Expr.nestingAt_eq, Goal.level] at hbody ⊢
      split at hbody <;> split <;> simp only [if_true] <;> omega
  | @ofFactor ts e h ih =>
      exact Int.le_trans (e.nestingAt_mono (by decide)) (ih hts)
  | @ofTerm ts e h ih =>
      exact Int.le_trans (e.nestingAt_mono (by decide)) (ih hts)
  | product l left level right ihl ihr | sum l left level right ihl ihr =>
      obtain ⟨hts, hus⟩ := inRange_operation.1 hts
      have hleft := ihl hts
      have hright := ihr hus
      rw [List.map_append, List.map_cons]
      rcases level with rfl | rfl <;>
      exact Expr.nestingAt_binary_le l left.balance_eq_zero hleft hright

end Writing

/-- The largest number of groups of a text that are open at once. -/
def textNesting (source : String) : Int :=
  nesting (lexemes source.toList)

theorem textNesting_text (e : Expr) : textNesting e.text = nesting e.words := by
  rw [textNesting, lexemes_text]

theorem map_lexeme_dropLast_tokenize (source : String) :
    (tokenize source).dropLast.map Token.lexeme = lexemes source.toList := by
  rw [dropLast_tokenize, Cursor.map_lexeme_scan]
  rfl

theorem nestsWithin_tokenize_iff {limit : Nat} {source : String} :
    NestsWithin limit (tokenize source).dropLast ↔ textNesting source ≤ limit := by
  rw [nestsWithin_iff, map_lexeme_dropLast_tokenize, textNesting]

/-- The text of an expression without negative literals is read as the same
expression, or is refused because it is nested too deep. -/
theorem Expr.parse_text {e : Expr} (he : e.Nonnegative) :
    (textNesting e.text ≤ 256 ∧ ∃ e', parse e.text = .ok e' ∧ e'.bare = e.bare) ∨
      (256 < textNesting e.text ∧ ∃ l, parse e.text = .error (.nestingTooDeep l)) := by
  have hwords : (tokenize e.text).dropLast.map Token.lexeme = e.words := by
    rw [map_lexeme_dropLast_tokenize, lexemes_text]
  obtain ⟨e', hder, hbare⟩ := e.derivesBare he hwords
  have hexpr : Derives .expression (tokenize e.text).dropLast e' :=
    hder.loosen e.level_expression_le
  have hnest := @nestsWithin_tokenize_iff 256 e.text
  rcases hexpr.parse_eq (e.inRange_of_map_eq he hwords) with ⟨hn, hok⟩ | ⟨hn, herr⟩
  · exact .inl ⟨hnest.1 hn, e', hok, hbare⟩
  · exact .inr ⟨Int.not_le.1 fun h => hn (hnest.2 h), herr⟩

/-- An expression that was read is written with no deeper nesting. -/
theorem Spells.textNesting_text_le {source : String} {e : Expr} (h : Spells source e) :
    textNesting e.text ≤ textNesting source := by
  have hle := h.derivation.nestingAt_le h.numbers
  have hpos : ¬ e.binding < Goal.expression.level := Nat.not_lt.2 e.binding_pos
  rw [Expr.nestingAt_eq, if_neg hpos, map_lexeme_dropLast_tokenize] at hle
  rw [textNesting_text]
  simpa [textNesting] using hle

/-- Writing and reading are inverse up to places and widths. An expression without
negative literals is read back from its text as long as the text is not nested too
deep, and an expression that was read is written with no deeper nesting than its
source, so it is always read back. -/
theorem text_round_trip :
    (∀ e : Expr, e.Nonnegative →
      (textNesting e.text ≤ 256 → ∃ e', parse e.text = .ok e' ∧ e'.bare = e.bare) ∧
        (256 < textNesting e.text → ∃ l, parse e.text = .error (.nestingTooDeep l))) ∧
      ∀ source e, parse source = .ok e → textNesting e.text ≤ textNesting source ∧
        ∃ e', parse e.text = .ok e' ∧ e'.bare = e.bare := by
  refine ⟨fun e he => ?_, fun source e hparse => ?_⟩
  · rcases e.parse_text he with ⟨hle, hok⟩ | ⟨hlt, herr⟩
    · exact ⟨fun _ => hok, fun hlt => absurd hle (Int.not_le.2 hlt)⟩
    · exact ⟨fun hle => absurd hle (Int.not_le.2 hlt), fun _ => herr⟩
  · have hspells := spells_of_parse_eq hparse
    have hle := hspells.textNesting_text_le
    have hlimit := nestsWithin_tokenize_iff.1 hspells.nesting
    refine ⟨hle, ?_⟩
    rcases e.parse_text (hspells.derivation.nonnegative hspells.numbers) with ⟨-, hok⟩ | ⟨hlt, -⟩
    · exact hok
    · exact absurd (Int.le_trans hle hlimit) (Int.not_le.2 hlt)

/-- A difference on the right of a minus sign keeps its parentheses. -/
theorem text_round_trip_difference :
    ∃ e', parse "1 - (2 - 3)" = .ok e' ∧ e'.bare =
      .binary .sub (.literal 1 .start 0)
        (.binary .sub (.literal 2 .start 0) (.literal 3 .start 0) .start) .start := by
  let e : Expr := .binary .sub (.literal 1 .start 0)
    (.binary .sub (.literal 2 .start 0) (.literal 3 .start 0) .start) .start
  have hnonneg : e.Nonnegative := by decide
  have hnest : textNesting e.text ≤ 256 := by
    rw [textNesting_text]
    decide
  have htext : e.text = "1 - (2 - 3)" := by decide +kernel
  obtain ⟨e', hparse, hbare⟩ := (text_round_trip.1 e hnonneg).1 hnest
  exact ⟨e', htext ▸ hparse, hbare⟩

end StepCalc
