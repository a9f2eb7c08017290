import StepCalc.Expr.Printer
import StepCalc.Proofs.Grammar.Derivation
import StepCalc.Proofs.Token.Lexemes

/-!
# The words of a written expression

`Expr.words` lists the lexemes that the printer writes, parentheses included, and
`lexemes_text` says that scanning the text gives them back. Their nesting follows
the shape of the expression: a parenthesized operand adds one group around its
own, and an operator has the nesting of its deeper side.
-/

namespace StepCalc

/-- `xs` in parentheses, if they are needed. -/
def group (needed : Bool) (xs : List Lexeme) : List Lexeme :=
  if needed then .openParen :: (xs ++ [.closeParen]) else xs

/-- A parenthesized word spells a group. -/
theorem map_lexeme_parenthesized (body : List Token) (l r : Location) :
    (Token.mk .openParen l :: (body ++ [Token.mk .closeParen r])).map Token.lexeme =
      group true (body.map Token.lexeme) := by
  simp [group]

def Value.digits (v : Value) : List Char :=
  Nat.toDigits 10 v.toInt.natAbs

/-- The lexemes of a value; those of a negative one begin with a minus sign, in
parentheses. -/
def Value.words (v : Value) : List Lexeme :=
  if v.toInt < 0 then group true [.operator .sub, .number v.digits] else [.number v.digits]

theorem Value.words_of_nonneg {v : Value} (h : 0 ≤ v.toInt) : v.words = [.number v.digits] :=
  if_neg (Int.not_lt.2 h)

/-- The lexemes of an expression. -/
def Expr.words : Expr → List Lexeme
  | literal v _ _ => v.words
  | binary op left right _ =>
      group (decide (left.binding < op.precedence)) left.words ++
        .operator op :: group (decide (right.binding ≤ op.precedence)) right.words

section Scanning

/-- `cs` is scanned as `xs` in front of anything but a digit. -/
def ScannedAs (cs : List Char) (xs : List Lexeme) : Prop :=
  ∀ rest : List Char, (∀ c ∈ rest.head?, c.isDigit = false) →
    lexemes (cs ++ rest) = xs ++ lexemes rest

theorem ScannedAs.enclose {cs : List Char} {xs : List Lexeme} (h : ScannedAs cs xs)
    (needed : Bool) : ScannedAs (enclose needed cs) (group needed xs) := by
  cases needed with
  | false => exact h
  | true =>
      intro rest _
      have hopen : lexemes ('(' :: (cs ++ ')' :: rest)) =
          .openParen :: lexemes (cs ++ ')' :: rest) :=
        lexemes_symbol_cons _ (by decide) (by decide)
      have hclose : lexemes (')' :: rest) = .closeParen :: lexemes rest :=
        lexemes_symbol_cons _ (by decide) (by decide)
      have hinside := h (')' :: rest) (by simp)
      simp only [StepCalc.enclose, group, if_true, List.cons_append, List.append_assoc,
        List.nil_append, hopen, hinside, hclose]

theorem scannedAs_digits (v : Value) : ScannedAs v.digits [.number v.digits] := by
  intro rest hrest
  have hdigit : ∀ d ∈ v.digits, d.isDigit = true := fun d hd =>
    Nat.isDigit_of_mem_toDigits (by decide) (by decide) hd
  have hne : v.digits ≠ [] := Nat.toDigits_ne_nil
  exact lexemes_digits_append hne hdigit hrest

theorem lexemes_symbol (op : Op) (cs : List Char) :
    lexemes (op.symbol :: cs) = .operator op :: lexemes cs := by
  have h : Lexeme.ofChar op.symbol = .operator op := by cases op <;> rfl
  rw [lexemes_symbol_cons cs (by cases op <;> decide) (by cases op <;> decide), h]

theorem scannedAs_operand (v : Value) : ScannedAs v.operand v.words := by
  by_cases hv : v.toInt < 0
  · have hminus : ScannedAs ('-' :: v.digits) [.operator .sub, .number v.digits] := by
      intro rest hrest
      have := scannedAs_digits v rest hrest
      rw [List.cons_append, show '-' = Op.sub.symbol from rfl, lexemes_symbol, this]
      rfl
    have := hminus.enclose true
    simpa [Value.operand, Value.chars, Value.words, Value.digits, hv] using this
  · have := scannedAs_digits v
    simpa [Value.operand, Value.chars, Value.words, Value.digits, hv, enclose] using this

/-- Between its operands an operator stands alone, whatever they are. -/
theorem ScannedAs.binary {cs ds : List Char} {xs ys : List Lexeme} (left : ScannedAs cs xs)
    (op : Op) (right : ScannedAs ds ys) :
    ScannedAs (cs ++ [' ', op.symbol, ' '] ++ ds) (xs ++ .operator op :: ys) := by
  intro rest hrest
  have hblank : ∀ us, lexemes (' ' :: us) = lexemes us := fun us =>
    lexemes_blank_cons us (by decide)
  have hleft := left (' ' :: op.symbol :: ' ' :: (ds ++ rest)) (by simp)
  simp only [List.append_assoc, List.cons_append, List.nil_append]
  rw [hleft, hblank, lexemes_symbol, hblank, right rest hrest]

theorem Expr.scannedAs_rendered (e : Expr) (n : Nat) : ScannedAs (e.rendered ∅ n) e.words := by
  induction e generalizing n with
  | literal v l width => simpa [rendered, words] using scannedAs_operand v
  | binary op left right l ihl ihr =>
      have hleft := (ihl (n + 1)).enclose (decide (left.binding < op.precedence))
      have hright := (ihr (n + 1 + left.size)).enclose (decide (right.binding ≤ op.precedence))
      simpa [rendered, words, bindingIn] using hleft.binary op hright

/-- The text of an expression is scanned as its words. -/
theorem lexemes_text (e : Expr) : lexemes e.text.toList = e.words := by
  have h := e.scannedAs_rendered 0 [] (by simp)
  simpa [Expr.text, Expr.render_eq] using h

end Scanning

section Nesting

@[simp] theorem balance_group (needed : Bool) (xs : List Lexeme) :
    balance (group needed xs) = balance xs := by
  cases needed with
  | false => rfl
  | true =>
      simp only [group, if_true, balance_cons, balance_append, Lexeme.balance, balance_nil]
      omega

theorem nesting_group {xs : List Lexeme} (h : balance xs = 0) (needed : Bool) :
    nesting (group needed xs) = nesting xs + if needed then 1 else 0 := by
  cases needed with
  | false => simp [group]
  | true =>
      have := nesting_nonneg xs
      simp only [group, if_true, nesting, nesting_append, Lexeme.balance, h]
      omega

theorem nesting_operator {xs : List Lexeme} (h : balance xs = 0) (op : Op) (ys : List Lexeme) :
    nesting (xs ++ .operator op :: ys) = max (nesting xs) (nesting ys) := by
  have := nesting_nonneg ys
  simp only [nesting_append, nesting, Lexeme.balance, h]
  omega

namespace Expr

@[simp] theorem balance_words (e : Expr) : balance e.words = 0 := by
  induction e with
  | literal v l width =>
      unfold words Value.words
      split <;> simp [Lexeme.balance]
  | binary op left right l ihl ihr => simp [words, Lexeme.balance, ihl, ihr]

/-- The nesting of an expression as an operand that must bind at least as tightly as
`level`. -/
def nestingAt (level : Nat) (e : Expr) : Int :=
  nesting (group (decide (e.binding < level)) e.words)

theorem nestingAt_eq (level : Nat) (e : Expr) :
    e.nestingAt level = nesting e.words + if e.binding < level then 1 else 0 := by
  simp [nestingAt, nesting_group]

theorem nestingAt_mono (e : Expr) {k level : Nat} (h : k ≤ level) :
    e.nestingAt k ≤ e.nestingAt level := by
  simp only [nestingAt_eq]
  split <;> split <;> omega

theorem nesting_words_binary (op : Op) (left right : Expr) (l : Location) :
    nesting (binary op left right l).words =
      max (left.nestingAt op.precedence) (right.nestingAt (op.precedence + 1)) := by
  have hleft : balance (group (decide (left.binding < op.precedence)) left.words) = 0 := by simp
  rw [words, nesting_operator hleft]
  simp only [nestingAt, Nat.lt_succ_iff]

/-- An operator between two words is nested no less than its operands in their places. -/
theorem nestingAt_binary_le {op : Op} {left right : Expr} (l : Location) {xs ys : List Lexeme}
    (hxs : balance xs = 0) (hleft : left.nestingAt op.precedence ≤ nesting xs)
    (hright : right.nestingAt (op.precedence + 1) ≤ nesting ys) :
    (binary op left right l).nestingAt op.precedence ≤ nesting (xs ++ .operator op :: ys) := by
  rw [nestingAt_eq, nesting_words_binary, nesting_operator hxs]
  simp only [binding, Nat.lt_irrefl, if_false]
  omega

theorem binding_pos (e : Expr) : 1 ≤ e.binding := by
  cases e with
  | literal => simp [binding]
  | binary op => cases op <;> simp [binding, Op.precedence]

end Expr

end Nesting

end StepCalc
