/-!
# Operators

The four binary operators, how tightly each binds, and what each computes on
exact integers.
-/

namespace StepCalc

inductive Op where
  | add
  | sub
  | mul
  | div
  deriving DecidableEq, Repr

namespace Op

def symbol : Op → Char
  | add => '+'
  | sub => '-'
  | mul => '*'
  | div => '/'

/-- The operator written `c`. -/
def ofChar? : Char → Option Op
  | '+' => some add
  | '-' => some sub
  | '*' => some mul
  | '/' => some div
  | _ => none

/-- How tightly the operator binds; multiplication and division bind tighter. -/
def precedence : Op → Nat
  | add | sub => 1
  | mul | div => 2

/-- The exact result; division drops the fraction and has none for a zero divisor. -/
def exact : Op → Int → Int → Option Int
  | add, a, b => some (a + b)
  | sub, a, b => some (a - b)
  | mul, a, b => some (a * b)
  | div, a, b => if b = 0 then none else some (a.tdiv b)

theorem ofChar?_eq_some_iff {c : Char} {op : Op} : ofChar? c = some op ↔ c = op.symbol := by
  constructor
  · intro h
    unfold ofChar? at h
    split at h <;> simp_all [symbol] <;> subst h <;> rfl
  · rintro rfl
    cases op <;> rfl

theorem exact_eq_none_iff {op : Op} {a b : Int} : op.exact a b = none ↔ op = div ∧ b = 0 := by
  cases op <;> simp [exact]

end Op

end StepCalc
