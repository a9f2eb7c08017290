import StepCalc.Proofs.Expr.Progress
import StepCalc.Proofs.Expr.RoundTrip
import StepCalc.Proofs.Grammar.EarliestError

/-!
# Negative values in a text

A negative value is written as a minus sign and digits in parentheses, and no text with
such a group is accepted: a group begins with an operand, and a minus sign is none. Numbers
in a text are never negative, so only the values of reduced operators can spoil it. While
these are not negative, what is left of an expression is written with no deeper nesting than
the whole, and is read back.
-/

namespace StepCalc

section Refusal

/-- Tokens that spell `xs` are nowhere taken. -/
def Refused (xs : List Lexeme) : Prop :=
  ∀ ts : List Token, ts.map Token.lexeme = xs → ∀ goal base (s s' : Reading),
    s.run? goal base ts ≠ some s'

theorem Refused.append_right {xs : List Lexeme} (h : Refused xs) (ys : List Lexeme) :
    Refused (xs ++ ys) := by
  intro ts hts goal base s s' hrun
  obtain ⟨us, vs, rfl, hus, -⟩ := List.map_eq_append_iff.1 hts
  obtain ⟨u, hu, -⟩ := Reading.run?_append_eq_some_iff.1 hrun
  exact h us hus goal base s u hu

theorem Refused.append_left {ys : List Lexeme} (h : Refused ys) (xs : List Lexeme) :
    Refused (xs ++ ys) := by
  intro ts hts goal base s s' hrun
  obtain ⟨us, vs, rfl, -, hvs⟩ := List.map_eq_append_iff.1 hts
  obtain ⟨u, -, hu⟩ := Reading.run?_append_eq_some_iff.1 hrun
  exact h vs hvs goal base u s' hu

theorem Refused.group {xs : List Lexeme} (h : Refused xs) (needed : Bool) :
    Refused (group needed xs) := by
  cases needed with
  | false => exact h
  | true => exact (h.append_right [.closeParen]).append_left [.openParen]

/-- No operator stands at the beginning of a group. -/
theorem refused_opening_operator (op : Op) : Refused [.openParen, .operator op] := by
  intro ts hts goal base s s' hrun
  obtain ⟨⟨x, l⟩, us, rfl, hx, hus⟩ := List.map_eq_cons_iff.1 hts
  obtain ⟨⟨y, k⟩, vs, rfl, hy, -⟩ := List.map_eq_cons_iff.1 hus
  obtain rfl : x = .openParen := hx
  obtain rfl : y = .operator op := hy
  obtain ⟨u, hopening, hrest⟩ := Reading.run?_cons_eq_some_iff.1 hrun
  obtain ⟨w, hoperator, -⟩ := Reading.run?_cons_eq_some_iff.1 hrest
  cases hopening with
  | opening room => cases hoperator

theorem Value.refused_words {v : Value} (h : v.toInt < 0) : Refused v.words := by
  rw [words, if_pos h]
  exact (refused_opening_operator .sub).append_right [.number v.digits, .closeParen]

namespace Expr

variable {e : Expr}

theorem refused_words (h : ¬ e.Nonnegative) : Refused e.words := by
  induction e with
  | literal v l width => exact Value.refused_words (Int.not_le.1 h)
  | binary op left right l ihl ihr =>
      rcases Decidable.not_and_iff_or_not.1 h with hleft | hright
      · exact ((ihl hleft).group _).append_right _
      · exact (((ihr hright).group _).append_left [.operator op]).append_left _

/-- A text with a negative value is not accepted. -/
theorem exists_parse_text_eq_error (h : ¬ e.Nonnegative) : ∃ err, parse e.text = .error err := by
  have hwords : (tokenize e.text).dropLast.map Token.lexeme = e.words := by
    rw [map_lexeme_dropLast_tokenize, lexemes_text]
  cases hparse : parse e.text with
  | error err => exact ⟨err, rfl⟩
  | ok e' =>
      obtain ⟨s, hrun, -⟩ := exists_parse_eq_ok_iff.1 ⟨e', hparse⟩
      exact absurd hrun (refused_words h _ hwords _ _ _ _)

end Expr

end Refusal

section Reduction

namespace Expr

variable {e : Expr} {k n : Nat}

/-- In an expression that has no negative literal, reduction brings in the values of the
outermost operators and no others. -/
theorem nonnegative_reduced_iff (h : e.Nonnegative) :
    (e.reduced k).Nonnegative ↔ ∀ p ∈ e.outermost k n, 0 ≤ p.2.toInt := by
  induction e generalizing k n with
  | literal v l width => simpa [reduced, outermost] using h
  | binary op left right l ihl ihr =>
      rw [reduced, outermost]
      cases (binary op left right l).valueAfter k with
      | some v => simp [Nonnegative]
      | none =>
          simp only [Nonnegative, List.mem_append, or_imp, forall_and]
          exact and_congr (ihl h.1) (ihr h.2)

theorem binding_binary_lt (op : Op) (left right : Expr) (l : Location) :
    (binary op left right l).binding < 3 := by
  cases op <;> simp [binding, Op.precedence]

/-- A value in the place of its operator needs no parentheses that the operator did not. -/
theorem nestingAt_reduced_le (h : (e.reduced k).Nonnegative) (level : Nat) :
    (e.reduced k).nestingAt level ≤ e.nestingAt level := by
  induction e generalizing k level with
  | literal => exact Int.le_refl _
  | binary op left right l ihl ihr =>
      rw [reduced] at h ⊢
      cases hvalue : (binary op left right l).valueAfter k with
      | some v =>
          simp only [hvalue] at h ⊢
          have hwords : nesting (literal v l 1).words = 0 := by
            rw [words, Value.words_of_nonneg h]
            rfl
          have hnonneg := nesting_nonneg (binary op left right l).words
          have hlt : (binary op left right l).binding < (literal v l 1).binding :=
            binding_binary_lt op left right l
          rw [nestingAt_eq, nestingAt_eq, hwords]
          split <;> split <;> omega
      | none =>
          simp only [hvalue] at h ⊢
          have hleft := ihl h.1 op.precedence
          have hright := ihr h.2 (op.precedence + 1)
          simp only [nestingAt_eq level, nesting_words_binary, binding]
          omega

end Expr

/-- What is left of an expression that was read is read back unless it has a negative
value. -/
theorem Spells.parse_text_reduced {source : String} {e : Expr} {k : Nat} (h : Spells source e)
    (hnonneg : (e.reduced k).Nonnegative) :
    ∃ e', parse (e.reduced k).text = .ok e' ∧ e'.bare = (e.reduced k).bare := by
  have hnesting : textNesting (e.reduced k).text ≤ 256 :=
    calc
      textNesting (e.reduced k).text = (e.reduced k).nestingAt 0 := by
        simp [textNesting_text, Expr.nestingAt_eq]
      _ ≤ e.nestingAt 0 := Expr.nestingAt_reduced_le hnonneg 0
      _ = textNesting e.text := by simp [textNesting_text, Expr.nestingAt_eq]
      _ ≤ textNesting source := h.textNesting_text_le
      _ ≤ 256 := nestsWithin_tokenize_iff.1 h.nesting
  rcases Expr.parse_text hnonneg with ⟨-, hread⟩ | ⟨hlt, -⟩
  · exact hread
  · exact absurd hnesting (Int.not_le.2 hlt)

end Reduction

end StepCalc
