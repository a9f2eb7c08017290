import StepCalc.Expr.Parser

/-!
# The grammar of expressions

```
expression := term (('+' | '-') term)*
term       := factor (('*' | '/') factor)*
factor     := NUMBER | '(' expression ')'
```

`Derives goal ts e` says that the tokens `ts` form a word of `goal` and that `e`
is the tree of that word when both repetitions are folded to the left. The
recursor `Derives.leftRec` replaces a repetition by steps at its right end, the
form in which every later induction uses it.

The nesting of a word is measured on its lexemes alone: `balance` counts the
groups opened and not closed, and `nesting` is the largest balance of a prefix.
-/

namespace StepCalc

section Nesting

/-- What a lexeme adds to the number of open groups. -/
def Lexeme.balance : Lexeme → Int
  | openParen => 1
  | closeParen => -1
  | _ => 0

/-- The groups opened less the groups closed. -/
def balance : List Lexeme → Int
  | [] => 0
  | x :: xs => x.balance + balance xs

/-- The largest number of groups open at once. -/
def nesting : List Lexeme → Int
  | [] => 0
  | x :: xs => max 0 (x.balance + nesting xs)

@[simp] theorem balance_nil : balance [] = 0 := rfl

@[simp] theorem balance_cons (x : Lexeme) (xs : List Lexeme) :
    balance (x :: xs) = x.balance + balance xs := rfl

@[simp] theorem balance_append (xs ys : List Lexeme) :
    balance (xs ++ ys) = balance xs + balance ys := by
  induction xs with
  | nil => simp
  | cons x xs ih => simp [ih, Int.add_assoc]

@[simp] theorem nesting_nil : nesting [] = 0 := rfl

theorem nesting_nonneg (xs : List Lexeme) : 0 ≤ nesting xs := by
  cases xs with
  | nil => exact Int.le_refl 0
  | cons x xs => exact Int.le_max_left 0 _

theorem nesting_append (xs ys : List Lexeme) :
    nesting (xs ++ ys) = max (nesting xs) (balance xs + nesting ys) := by
  induction xs with
  | nil =>
      have hy := nesting_nonneg ys
      simp only [List.nil_append, nesting_nil, balance_nil]
      omega
  | cons x xs ih =>
      simp only [List.cons_append, nesting, balance_cons, ih]
      omega

theorem balance_le_nesting (xs : List Lexeme) : balance xs ≤ nesting xs := by
  have h := nesting_append xs []
  simp only [List.append_nil, nesting_nil] at h
  omega

/-- A bound on the nesting bounds the groups open before every opening
parenthesis. -/
theorem nesting_le_iff {xs : List Lexeme} {k : Int} (hk : 0 ≤ k) :
    nesting xs ≤ k ↔ ∀ pre post, xs = pre ++ .openParen :: post → balance pre < k := by
  induction xs generalizing k with
  | nil => simp [hk]
  | cons x xs ih =>
      constructor
      · intro h pre post hx
        simp only [nesting] at h
        cases pre with
        | nil =>
            obtain ⟨rfl, rfl⟩ := List.cons.inj hx
            have := nesting_nonneg xs
            simp only [Lexeme.balance] at h
            simp only [balance_nil]
            omega
        | cons y pre =>
            obtain ⟨rfl, hxs⟩ := List.cons.inj hx
            have hn := nesting_nonneg xs
            have := (ih (k := k - x.balance) (by omega)).1 (by omega) pre post hxs
            simp only [balance_cons]
            omega
      · intro h
        have hx : x.balance ≤ k := by
          cases x with
          | openParen =>
              have := h [] xs rfl
              simp only [balance_nil] at this
              simp only [Lexeme.balance]
              omega
          | _ => simp only [Lexeme.balance]; omega
        have hxs : nesting xs ≤ k - x.balance := by
          refine (ih (by omega)).2 fun pre post hpre => ?_
          have := h (x :: pre) post (by simp [hpre])
          simp only [balance_cons] at this
          omega
        simp only [nesting]
        omega

end Nesting

/-- An operator and the operand after it, with the operand's word and tree. -/
structure Continuation where
  op : Op
  location : Location
  word : List Token
  tree : Expr

namespace Continuation

def tokens (c : Continuation) : List Token :=
  ⟨.operator c.op, c.location⟩ :: c.word

/-- The tree of everything up to and including the operand of `c`. -/
def fold (left : Expr) (c : Continuation) : Expr :=
  .binary c.op left c.tree c.location

/-- What each continuation keeps, a whole repetition keeps. -/
theorem repeat_induction {P : List Token → Expr → Prop} {Q : Continuation → Prop}
    (step : ∀ ts e c, P ts e → Q c → P (ts ++ c.tokens) (fold e c))
    {ts : List Token} {e : Expr} {rest : List Continuation} (first : P ts e)
    (h : ∀ c ∈ rest, Q c) : P (ts ++ rest.flatMap tokens) (rest.foldl fold e) := by
  induction rest generalizing ts e with
  | nil => simpa using first
  | cons c rest ih =>
      obtain ⟨hc, hrest⟩ := List.forall_mem_cons.1 h
      simpa using ih (step ts e c first hc) hrest

end Continuation

/-- `ts` is a word of `goal`, and folding its operators to the left gives `e`. -/
inductive Derives : Goal → List Token → Expr → Prop
  | number (digits : List Char) (l : Location) :
      Derives .factor [⟨.number digits, l⟩]
        (.literal (.ofNat (Nat.ofDigitChars 10 digits 0)) l digits.length)
  | group {body : List Token} {e : Expr} (l r : Location) (inside : Derives .expression body e) :
      Derives .factor (⟨.openParen, l⟩ :: (body ++ [⟨.closeParen, r⟩])) e
  | term {first : List Token} {e : Expr} {rest : List Continuation}
      (head : Derives .factor first e) (level : ∀ c ∈ rest, c.op = .mul ∨ c.op = .div)
      (tail : ∀ c ∈ rest, Derives .factor c.word c.tree) :
      Derives .term (first ++ rest.flatMap Continuation.tokens) (rest.foldl Continuation.fold e)
  | expression {first : List Token} {e : Expr} {rest : List Continuation}
      (head : Derives .term first e) (level : ∀ c ∈ rest, c.op = .add ∨ c.op = .sub)
      (tail : ∀ c ∈ rest, Derives .term c.word c.tree) :
      Derives .expression (first ++ rest.flatMap Continuation.tokens)
        (rest.foldl Continuation.fold e)

namespace Derives

theorem ofFactor {ts : List Token} {e : Expr} (h : Derives .factor ts e) : Derives .term ts e := by
  simpa using @term ts e [] h (by simp) (by simp)

theorem ofTerm {ts : List Token} {e : Expr} (h : Derives .term ts e) :
    Derives .expression ts e := by
  simpa using @expression ts e [] h (by simp) (by simp)

/-- A term goes on with `*` or `/` and a factor. -/
theorem product {ts us : List Token} {e f : Expr} {op : Op} (l : Location)
    (left : Derives .term ts e) (level : op = .mul ∨ op = .div) (right : Derives .factor us f) :
    Derives .term (ts ++ ⟨.operator op, l⟩ :: us) (.binary op e f l) := by
  cases left with
  | @term first e rest head levels tail =>
      have h := @term first e (rest ++ [⟨op, l, us, f⟩]) head
        (by simpa [or_imp, forall_and] using ⟨levels, level⟩)
        (by simpa [or_imp, forall_and] using ⟨tail, right⟩)
      simpa [Continuation.tokens, Continuation.fold] using h

/-- An expression goes on with `+` or `-` and a term. -/
theorem sum {ts us : List Token} {e f : Expr} {op : Op} (l : Location)
    (left : Derives .expression ts e) (level : op = .add ∨ op = .sub)
    (right : Derives .term us f) :
    Derives .expression (ts ++ ⟨.operator op, l⟩ :: us) (.binary op e f l) := by
  cases left with
  | @expression first e rest head levels tail =>
      have h := @expression first e (rest ++ [⟨op, l, us, f⟩]) head
        (by simpa [or_imp, forall_and] using ⟨levels, level⟩)
        (by simpa [or_imp, forall_and] using ⟨tail, right⟩)
      simpa [Continuation.tokens, Continuation.fold] using h

/-- Induction on derivations in which a repetition grows at its right end. -/
@[elab_as_elim]
theorem leftRec {motive : ∀ goal ts e, Derives goal ts e → Prop}
    (number : ∀ digits l, motive _ _ _ (number digits l))
    (group : ∀ {body e} l r (inside : Derives .expression body e), motive _ _ _ inside →
      motive _ _ _ (inside.group l r))
    (ofFactor : ∀ {ts e} (h : Derives .factor ts e), motive _ _ _ h → motive _ _ _ h.ofFactor)
    (product : ∀ {ts us e f} {op : Op} l (left : Derives .term ts e)
      (level : op = .mul ∨ op = .div) (right : Derives .factor us f),
      motive _ _ _ left → motive _ _ _ right → motive _ _ _ (left.product l level right))
    (ofTerm : ∀ {ts e} (h : Derives .term ts e), motive _ _ _ h → motive _ _ _ h.ofTerm)
    (sum : ∀ {ts us e f} {op : Op} l (left : Derives .expression ts e)
      (level : op = .add ∨ op = .sub) (right : Derives .term us f),
      motive _ _ _ left → motive _ _ _ right → motive _ _ _ (left.sum l level right))
    {goal : Goal} {ts : List Token} {e : Expr} (h : Derives goal ts e) : motive goal ts e h := by
  induction h with
  | number digits l => exact number digits l
  | group l r inside ih => exact group l r inside ih
  | term head level tail ihh iht =>
      refine (Continuation.repeat_induction (P := fun ts e => ∃ h, motive .term ts e h)
        (Q := fun c => (c.op = .mul ∨ c.op = .div) ∧ ∃ h, motive .factor c.word c.tree h)
        ?_ ⟨head.ofFactor, ofFactor head ihh⟩ fun c hc => ⟨level c hc, tail c hc, iht c hc⟩).2
      rintro ts e c ⟨left, hleft⟩ ⟨hop, right, hright⟩
      exact ⟨left.product c.location hop right, product c.location left hop right hleft hright⟩
  | expression head level tail ihh iht =>
      refine (Continuation.repeat_induction (P := fun ts e => ∃ h, motive .expression ts e h)
        (Q := fun c => (c.op = .add ∨ c.op = .sub) ∧ ∃ h, motive .term c.word c.tree h)
        ?_ ⟨head.ofTerm, ofTerm head ihh⟩ fun c hc => ⟨level c hc, tail c hc, iht c hc⟩).2
      rintro ts e c ⟨left, hleft⟩ ⟨hop, right, hright⟩
      exact ⟨left.sum c.location hop right, sum c.location left hop right hleft hright⟩

/-- Every word closes the groups it opens. -/
theorem balance_eq_zero {goal : Goal} {ts : List Token} {e : Expr} (h : Derives goal ts e) :
    balance (ts.map Token.lexeme) = 0 := by
  induction h using leftRec with
  | number digits l => rfl
  | group l r inside ih => simp [Lexeme.balance, ih]
  | ofFactor _ ih | ofTerm _ ih => exact ih
  | product l _ _ _ ihl ihr | sum l _ _ _ ihl ihr => simp [Lexeme.balance, ihl, ihr]

end Derives

end StepCalc
