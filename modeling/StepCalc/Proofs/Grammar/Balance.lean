import StepCalc.Proofs.Expr.Words

/-!
# Balanced parentheses

A list of lexemes is balanced if it closes all groups that it opens and no others. Words of
the grammar are balanced, and so is everything that is written. What stands outside all
groups of a balanced list can be told from the balance of what comes before it: `TopLevel`
says which operators do.
-/

namespace StepCalc

/-- Every group is closed, and none is closed that has not been opened. -/
structure Balanced (xs : List Lexeme) : Prop where
  closed : balance xs = 0
  opened : ∀ k, 0 ≤ balance (xs.take k)

namespace Balanced

variable {xs ys : List Lexeme}

/-- What comes first never closes more than it has opened. -/
theorem balance_nonneg (h : Balanced (xs ++ ys)) : 0 ≤ balance xs := by
  have hopened := h.opened xs.length
  rwa [List.take_left] at hopened

/-- No part is nested deeper than the whole. -/
theorem nesting_le {zs : List Lexeme} (h : Balanced (xs ++ (ys ++ zs))) :
    nesting ys ≤ nesting (xs ++ (ys ++ zs)) := by
  have hfront := h.balance_nonneg
  rw [nesting_append, nesting_append]
  omega

theorem singleton {x : Lexeme} (h : x.balance = 0) : Balanced [x] := by
  constructor
  · simp [h]
  · intro k
    cases k with
    | zero => simp
    | succ k => simp [h]

theorem append (hxs : Balanced xs) (hys : Balanced ys) : Balanced (xs ++ ys) := by
  constructor
  · rw [balance_append, hxs.closed, hys.closed]
    rfl
  · intro k
    rw [List.take_append, balance_append]
    exact Int.add_nonneg (hxs.opened k) (hys.opened _)

theorem cons {x : Lexeme} (h : x.balance = 0) (hxs : Balanced xs) : Balanced (x :: xs) :=
  (singleton h).append hxs

/-- Inside a group the balance is one higher, so the closing parenthesis has its partner. -/
theorem group (h : Balanced xs) (needed : Bool) : Balanced (group needed xs) := by
  constructor
  · rw [balance_group, h.closed]
  · intro k
    cases needed with
    | false => exact h.opened k
    | true =>
        cases k with
        | zero => simp
        | succ k =>
            have hinside := h.opened k
            have hlast : -1 ≤ balance ([Lexeme.closeParen].take (k - xs.length)) := by
              cases k - xs.length <;> simp [Lexeme.balance]
            simp only [StepCalc.group, if_true, List.take_succ_cons, List.take_append,
              balance_cons, balance_append, Lexeme.balance]
            omega

end Balanced

theorem Value.balanced_words (v : Value) : Balanced v.words := by
  unfold words
  split
  · exact (Balanced.cons rfl (.singleton rfl)).group true
  · exact .singleton rfl

theorem Expr.balanced_words (e : Expr) : Balanced e.words := by
  induction e with
  | literal v l width => exact v.balanced_words
  | binary op left right l ihl ihr => exact (ihl.group _).append (.cons rfl (ihr.group _))

theorem Derives.balanced {goal : Goal} {ts : List Token} {e : Expr} (h : Derives goal ts e) :
    Balanced (ts.map Token.lexeme) := by
  induction h using leftRec with
  | number digits l => exact .singleton rfl
  | group l r inside ih =>
      rw [map_lexeme_parenthesized]
      exact ih.group true
  | ofFactor _ ih | ofTerm _ ih => exact ih
  | product l _ _ _ ihl ihr | sum l _ _ _ ihl ihr =>
      rw [List.map_append, List.map_cons]
      exact ihl.append (.cons rfl ihr)

section TopLevel

variable {op : Op} {xs ys : List Lexeme}

/-- The operator stands in `xs` outside all groups. -/
def TopLevel (op : Op) (xs : List Lexeme) : Prop :=
  ∃ us vs, xs = us ++ .operator op :: vs ∧ balance us = 0

/-- Nothing inside a group stands outside all groups. -/
theorem not_topLevel_group (h : Balanced xs) : ¬ TopLevel op (group true xs) := by
  rintro ⟨us, vs, hsplit, hus⟩
  cases us with
  | nil => cases hsplit
  | cons u us =>
      rw [List.cons_append] at hsplit
      obtain ⟨rfl, hrest⟩ := List.cons.inj hsplit
      have hlength : us.length ≤ xs.length := by
        have := congrArg List.length hrest
        simp only [List.length_append, List.length_cons, List.length_nil] at this
        omega
      obtain ⟨zs, rfl⟩ : us <+: xs :=
        List.prefix_of_prefix_length_le ⟨_, hrest.symm⟩ (List.prefix_append ..) hlength
      have hopened := h.balance_nonneg
      simp only [balance_cons, Lexeme.balance] at hus
      omega

theorem not_topLevel_nil : ¬ TopLevel op [] := by
  rintro ⟨us, vs, hsplit, -⟩
  simp at hsplit

theorem topLevel_cons {x : Lexeme} (hx : x.balance = 0) (h : TopLevel op (x :: xs)) :
    x = .operator op ∨ TopLevel op xs := by
  obtain ⟨us, vs, hsplit, hus⟩ := h
  cases us with
  | nil => exact .inl (List.cons.inj hsplit).1
  | cons u us =>
      obtain ⟨rfl, rfl⟩ := List.cons.inj hsplit
      refine .inr ⟨us, vs, rfl, ?_⟩
      simpa [hx] using hus

theorem topLevel_append (hxs : balance xs = 0) (h : TopLevel op (xs ++ ys)) :
    TopLevel op xs ∨ TopLevel op ys := by
  obtain ⟨us, vs, hsplit, hus⟩ := h
  rcases List.append_eq_append_iff.1 hsplit with ⟨as, rfl, hys⟩ | ⟨bs, rfl, hvs⟩
  · refine .inr ⟨as, vs, hys, ?_⟩
    simpa [hxs] using hus
  · cases bs with
    | nil => exact .inr ⟨[], vs, hvs.symm, rfl⟩
    | cons b bs =>
        obtain ⟨rfl, -⟩ := List.cons.inj hvs
        exact .inl ⟨us, bs, rfl, hus⟩

end TopLevel

end StepCalc
