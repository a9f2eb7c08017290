import StepCalc.Proofs.Expr.Parentheses
import StepCalc.Proofs.Grammar.Balance

/-!
# A text determines its expression

The operator at the root of an expression can be found in its words: outside all groups no
operator before it binds looser, and none after it as loose. No other operator is in such a
place, so the words of an operator fall apart in one way only, into those of its operands.
An opening parenthesis begins a group or a negative value, and what comes next tells which:
no group begins with an operator. Hence expressions with the same text differ at most in
places and widths, also where the text cannot be read back.
-/

namespace StepCalc

section Root

variable {op op' : Op} {xs ys xs' ys' : List Lexeme}

/-- `op` is the root of what is written `xs`, then `op`, then `ys`. -/
structure Splits (xs : List Lexeme) (op : Op) (ys : List Lexeme) : Prop where
  closed : balance xs = 0
  before : ∀ o, TopLevel o xs → op.precedence ≤ o.precedence
  behind : ∀ o, TopLevel o ys → op.precedence < o.precedence

/-- The root is not followed by another root: neither binds tighter than the other. -/
theorem Splits.not_before (h : Splits xs op ys) (h' : Splits xs' op' ys') {zs : List Lexeme}
    (hxs : xs' = xs ++ .operator op :: zs) (hys : ys = zs ++ .operator op' :: ys') : False := by
  have hzs : balance zs = 0 := by
    have := h'.closed
    simpa [hxs, h.closed, Lexeme.balance] using this
  have hlt := h.behind op' ⟨zs, ys', hys, hzs⟩
  have hle := h'.before op ⟨xs, zs, hxs, h.closed⟩
  omega

theorem Splits.unique (h : Splits xs op ys) (h' : Splits xs' op' ys')
    (heq : xs ++ .operator op :: ys = xs' ++ .operator op' :: ys') :
    xs = xs' ∧ op = op' ∧ ys = ys' := by
  rcases List.append_eq_append_iff.1 heq with ⟨as, hxs, hys⟩ | ⟨bs, hxs, hys⟩
  · cases as with
    | nil =>
        obtain ⟨hop, rfl⟩ := List.cons.inj hys
        exact ⟨by simpa using hxs.symm, Lexeme.operator.inj hop, rfl⟩
    | cons a as =>
        rw [List.cons_append] at hys
        obtain ⟨rfl, htail⟩ := List.cons.inj hys
        exact (h.not_before h' hxs htail).elim
  · cases bs with
    | nil =>
        obtain ⟨hop, rfl⟩ := List.cons.inj hys
        exact ⟨by simpa using hxs, (Lexeme.operator.inj hop).symm, rfl⟩
    | cons b bs =>
        rw [List.cons_append] at hys
        obtain ⟨rfl, htail⟩ := List.cons.inj hys
        exact (h'.not_before h hxs htail).elim

end Root

theorem Value.not_topLevel_words (v : Value) (op : Op) : ¬ TopLevel op v.words := by
  unfold words
  split
  · exact not_topLevel_group (.cons rfl (.singleton rfl))
  · intro h
    rcases topLevel_cons rfl h with h | h
    · cases h
    · exact not_topLevel_nil h

theorem Value.words_injective {v w : Value} (h : v.words = w.words) : v = w := by
  have hdigits : v.digits = w.digits → v.toInt.natAbs = w.toInt.natAbs := by
    intro hd
    have := congrArg (Nat.ofDigitChars 10 · 0) hd
    simpa [digits, Nat.ofDigitChars_ten_toDigits] using this
  apply Int64.toInt.inj
  unfold words at h
  split at h <;> split at h
  · have := hdigits (by simpa [group] using h)
    omega
  · cases h
  · cases h
  · have := hdigits (by simpa using h)
    omega

namespace Expr

variable {e f left right : Expr} {op : Op} {level : Nat}

theorem balanced_wordsAt (level : Nat) (e : Expr) : Balanced (e.wordsAt level) :=
  e.balanced_words.group _

theorem words_binary (op : Op) (left right : Expr) (l : Location) :
    (binary op left right l).words =
      left.wordsAt op.precedence ++ .operator op :: right.wordsAt (op.precedence + 1) := by
  rw [← wordsAt_binary op left right l, wordsAt_of_le (Nat.le_refl op.precedence)]

/-- In its place an operand shows only operators that are tight enough for the place. -/
theorem le_precedence_of_topLevel_wordsAt
    (he : ∀ o, TopLevel o e.words → e.binding ≤ o.precedence)
    (h : TopLevel op (e.wordsAt level)) : level ≤ op.precedence := by
  by_cases hb : e.binding < level
  · rw [wordsAt, decide_eq_true hb] at h
    exact absurd h (not_topLevel_group e.balanced_words)
  · rw [wordsAt_of_le (Nat.le_of_not_lt hb)] at h
    have := he op h
    omega

/-- Outside all groups no operator binds looser than the expression does. -/
theorem binding_le_of_topLevel_words (h : TopLevel op e.words) : e.binding ≤ op.precedence := by
  induction e generalizing op with
  | literal v l width => exact absurd h (v.not_topLevel_words op)
  | binary op' left right l ihl ihr =>
      rw [words_binary] at h
      rcases topLevel_append (left.balanced_wordsAt _).closed h with h | h
      · exact le_precedence_of_topLevel_wordsAt (fun _ => ihl) h
      · rcases topLevel_cons rfl h with h | h
        · obtain rfl := Lexeme.operator.inj h
          exact Nat.le_refl _
        · exact Nat.le_of_succ_le (le_precedence_of_topLevel_wordsAt (fun _ => ihr) h)

theorem splits_words (op : Op) (left right : Expr) :
    Splits (left.wordsAt op.precedence) op (right.wordsAt (op.precedence + 1)) := by
  constructor
  · exact (left.balanced_wordsAt _).closed
  · intro o ho
    exact le_precedence_of_topLevel_wordsAt (fun _ => binding_le_of_topLevel_words) ho
  · intro o ho
    exact le_precedence_of_topLevel_wordsAt (fun _ => binding_le_of_topLevel_words) ho

theorem topLevel_words_binary (op : Op) (left right : Expr) (l : Location) :
    TopLevel op (binary op left right l).words := by
  rw [words_binary]
  exact ⟨_, _, rfl, (left.balanced_wordsAt _).closed⟩

/-- A text begins with a number or an opening parenthesis. -/
theorem exists_words_eq_cons (e : Expr) :
    ∃ x xs, e.words = x :: xs ∧ ∀ op, x ≠ .operator op := by
  induction e with
  | literal v l width =>
      unfold words Value.words
      split
      · exact ⟨.openParen, _, rfl, by simp⟩
      · exact ⟨.number v.digits, [], rfl, by simp⟩
  | binary op left right l ihl ihr =>
      rw [words_binary]
      by_cases hb : left.binding < op.precedence
      · rw [wordsAt, decide_eq_true hb]
        exact ⟨.openParen, _, rfl, by simp⟩
      · rw [wordsAt_of_le (Nat.le_of_not_lt hb)]
        obtain ⟨x, xs, hwords, hx⟩ := ihl
        exact ⟨x, _, by rw [hwords, List.cons_append], hx⟩

/-- No expression is written like another one in parentheses. -/
theorem words_ne_group (e f : Expr) : e.words ≠ group true f.words := by
  intro h
  cases e with
  | literal v l width =>
      obtain ⟨x, xs, hwords, hx⟩ := f.exists_words_eq_cons
      rw [hwords, words, Value.words] at h
      split at h
      · -- a negative value: behind the parenthesis there is a sign
        exact hx .sub (List.cons.inj (List.cons.inj h).2).1.symm
      · cases h
  | binary op left right l =>
      have htop := topLevel_words_binary op left right l
      rw [h] at htop
      exact not_topLevel_group f.balanced_words htop

theorem words_eq_of_wordsAt_eq (h : e.wordsAt level = f.wordsAt level) : e.words = f.words := by
  unfold wordsAt at h
  by_cases he : e.binding < level <;> by_cases hf : f.binding < level
  · simpa [he, hf, group] using h
  · simp only [he, hf, decide_true, decide_false] at h
    exact absurd h.symm (f.words_ne_group e)
  · simp only [he, hf, decide_true, decide_false] at h
    exact absurd h (e.words_ne_group f)
  · simpa [he, hf, group] using h

theorem bare_eq_of_words_eq (h : e.words = f.words) : e.bare = f.bare := by
  induction e generalizing f with
  | literal v l width =>
      cases f with
      | literal w l' width' =>
          obtain rfl := Value.words_injective h
          rfl
      | binary op left right l' =>
          have htop := topLevel_words_binary op left right l'
          rw [← h] at htop
          exact absurd htop (v.not_topLevel_words op)
  | binary op left right l ihl ihr =>
      cases f with
      | literal w l' width' =>
          have htop := topLevel_words_binary op left right l
          rw [h] at htop
          exact absurd htop (w.not_topLevel_words op)
      | binary op' left' right' l' =>
          rw [words_binary, words_binary] at h
          obtain ⟨hleft, rfl, hright⟩ :=
            (splits_words op left right).unique (splits_words op' left' right') h
          rw [bare, bare, ihl (words_eq_of_wordsAt_eq hleft), ihr (words_eq_of_wordsAt_eq hright)]

/-- The text says everything about an expression but places and widths. -/
theorem text_eq_iff_bare_eq : e.text = f.text ↔ e.bare = f.bare := by
  constructor
  · intro h
    apply bare_eq_of_words_eq
    rw [← lexemes_text, ← lexemes_text, h]
  · exact text_eq_of_bare_eq

end Expr

end StepCalc
