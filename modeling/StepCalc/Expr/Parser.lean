import StepCalc.Expr.Basic
import StepCalc.Expr.ParseError
import StepCalc.Token.Cursor

/-!
# Reading expressions

The grammar has two levels of left-associative operators over numbers and
parenthesized groups. A goal is read by recursive descent: an expression is a
chain of terms, a term a chain of factors, and a group leads back to an
expression. The parser counts the groups that it is in, and refuses one that
exceeds the limit.

An error ends all calls that are under way. It leaves the parser in front of the
token that is wrong, with the groups still counted whose calls it has ended.
-/

namespace StepCalc

/-- The part of the grammar that is to be read. -/
inductive Goal where
  | factor
  | term
  | expression
  deriving DecidableEq, Repr

namespace Goal

/-- How many levels lie below. -/
def rank : Goal → Nat
  | factor => 0
  | term => 1
  | expression => 2

theorem rank_le (goal : Goal) : goal.rank ≤ 2 := by
  cases goal <;> decide

/-- What a goal is a chain of. -/
def part : Goal → Goal
  | factor | term => factor
  | expression => term

end Goal

/-- The goal whose parts the operator links. -/
def Op.goal : Op → Goal
  | add | sub => .expression
  | mul | div => .term

/-- A parser in use: the tokens to come, the end of the text, and the number of
groups taken to be open already. Each call goes on where the last one stopped,
also after an error. -/
structure Parser where
  rest : List Token
  finish : Location
  depth : Nat
  deriving DecidableEq, Repr

namespace Parser

def ofCursor (c : Cursor) : Parser :=
  ⟨c.scan.tokens, c.scan.finish, 0⟩

def ofString (source : String) : Parser :=
  ofCursor (.ofString source)

/-- The token that comes next. -/
def current (p : Parser) : Token :=
  p.rest.headD ⟨.endOfInput, p.finish⟩

/-- What is wrong with the token that comes next, if something else should. -/
def unexpected (p : Parser) (expected : Expected) : ParseError :=
  match p.current with
  | ⟨.invalid c, l⟩ => .unexpectedCharacter c l
  | ⟨x, l⟩ => .unexpectedToken expected x.kind l

/-- The answer of a call on `p` and the parser after it, which has no more tokens to
come than `p`. -/
abbrev Reads (p : Parser) : Type :=
  { r : Except ParseError Expr × Parser // r.2.rest.length ≤ p.rest.length }

namespace Reads

variable {p q : Parser}

/-- The same, as part of a call on another parser. -/
@[inline] def within (r : Reads q) (h : q.rest.length ≤ p.rest.length) : Reads p :=
  ⟨r.1, Nat.le_trans r.2 h⟩

/-- Goes on after a success. An error is passed on, and nothing more is done. -/
@[inline] def andThen (r : Reads p)
    (next : Expr → (q : Parser) → q.rest.length ≤ p.rest.length → Reads p) : Reads p :=
  match r with
  | ⟨(.ok e, q), h⟩ => next e q h
  | ⟨(.error err, q), h⟩ => ⟨(.error err, q), h⟩

end Reads

/-- Leaves the group with the expression `e` in it: the group is no longer counted
when its closing parenthesis is asked for. -/
def leave (e : Expr) (p : Parser) : Reads p :=
  let p' : Parser := { p with depth := p.depth - 1 }
  match h : p.rest with
  | ⟨.closeParen, _⟩ :: rest => ⟨(.ok e, { p' with rest }), by simp [h]⟩
  | _ => ⟨(.error (p'.unexpected .closeParen), p'), Nat.le_refl _⟩

mutual

/-- Reads a number or a group. -/
def factor (p : Parser) : Reads p :=
  match h : p.rest with
  | ⟨.number digits, l⟩ :: rest =>
    let n := Nat.ofDigitChars 10 digits 0
    if n ≤ Value.largest then
      ⟨(.ok (.literal (.ofNat n) l digits.length), { p with rest }), by simp [h]⟩
    else ⟨(.error (.literalOutOfRange digits l), p), Nat.le_refl _⟩
  | ⟨.openParen, l⟩ :: rest =>
    if p.depth = ParseError.maxNesting then ⟨(.error (.nestingTooDeep l), p), Nat.le_refl _⟩
    else
      let inside : Parser := { p with rest, depth := p.depth + 1 }
      ((inside.descend .expression).andThen fun e q hq => (q.leave e).within hq).within
        (by simp [inside, h])
  | _ => ⟨(.error (p.unexpected .operand), p), Nat.le_refl _⟩
termination_by 4 * p.rest.length
decreasing_by
  simp only [h, List.length_cons, Goal.rank]; omega

/-- Reads as much as `goal` allows. -/
def descend (goal : Goal) (p : Parser) : Reads p :=
  match goal with
  | .factor => p.factor
  | .term => (p.descend .factor).andThen fun e q hq => (q.chain .term e).within hq
  | .expression => (p.descend .term).andThen fun e q hq => (q.chain .expression e).within hq
termination_by 4 * p.rest.length + goal.rank + 1
decreasing_by
  all_goals simp only [Goal.rank]; omega

/-- Goes on behind `left` as long as there are operators of `goal`. -/
def chain (goal : Goal) (left : Expr) (p : Parser) : Reads p :=
  match h : p.rest with
  | ⟨.operator op, l⟩ :: rest =>
    if op.goal = goal then
      let behind : Parser := { p with rest }
      ((behind.descend goal.part).andThen fun right q hq =>
        (q.chain goal (.binary op left right l)).within hq).within (by simp [behind, h])
    else ⟨(.ok left, p), Nat.le_refl _⟩
  | _ => ⟨(.ok left, p), Nat.le_refl _⟩
termination_by 4 * p.rest.length
decreasing_by
  · have := goal.part.rank_le
    simp only [h, List.length_cons]; omega
  · have : q.rest.length ≤ rest.length := hq
    simp only [h, List.length_cons]; omega

end

/-- Reads as much as `goal` allows. -/
def read (goal : Goal) (p : Parser) : Except ParseError Expr × Parser :=
  (p.descend goal).1

/-- Reads an expression that must extend to the end of the text. -/
def parse (p : Parser) : Except ParseError Expr × Parser :=
  match p.read .expression with
  | (.error e, p) => (.error e, p)
  | (.ok e, p) =>
    match p.current.lexeme with
    | .endOfInput => (.ok e, p)
    | _ => (.error (p.unexpected .continuation), p)

end Parser

/-- The expression that a source text spells. -/
def parse (source : String) : Except ParseError Expr :=
  (Parser.ofString source).parse.1

end StepCalc
