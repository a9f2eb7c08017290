import StepCalc.Op
import StepCalc.Source.Location

/-!
# Tokens

A token is a lexeme together with the place where it starts. Every character
that is neither blank, digit, operator nor parenthesis is a lexeme of its own,
so that scanning never fails; the end of the input is a lexeme with no text.
-/

namespace StepCalc

/-- The class of a lexeme, the part of it that messages name. -/
inductive Kind where
  | number
  | operator (op : Op)
  | openParen
  | closeParen
  | endOfInput
  | invalid
  deriving DecidableEq, Repr

def Kind.name : Kind → String
  | number => "NUMBER"
  | operator .add => "PLUS"
  | operator .sub => "MINUS"
  | operator .mul => "STAR"
  | operator .div => "SLASH"
  | openParen => "LPAREN"
  | closeParen => "RPAREN"
  | endOfInput => "END_OF_INPUT"
  | invalid => "INVALID"

inductive Lexeme where
  | number (digits : List Char)
  | operator (op : Op)
  | openParen
  | closeParen
  | endOfInput
  | invalid (c : Char)
  deriving DecidableEq, Repr

namespace Lexeme

def kind : Lexeme → Kind
  | number _ => .number
  | operator op => .operator op
  | openParen => .openParen
  | closeParen => .closeParen
  | endOfInput => .endOfInput
  | invalid _ => .invalid

/-- The characters of the source that make up the lexeme. -/
def chars : Lexeme → List Char
  | number digits => digits
  | operator op => [op.symbol]
  | openParen => ['(']
  | closeParen => [')']
  | endOfInput => []
  | invalid c => [c]

def text (x : Lexeme) : String :=
  String.ofList x.chars

/-- The lexeme that a character other than a digit or a blank forms by itself. -/
def ofChar (c : Char) : Lexeme :=
  match Op.ofChar? c with
  | some op => operator op
  | none => if c = '(' then openParen else if c = ')' then closeParen else invalid c

/-- The wording for a reader. -/
def describe : Lexeme → String
  | number digits => s!"number {String.ofList digits}"
  | endOfInput => "end of input"
  | invalid c => s!"invalid character '{c}'"
  | operator op => s!"'{op.symbol}'"
  | openParen => "'('"
  | closeParen => "')'"

@[simp] theorem chars_ofChar (c : Char) : (ofChar c).chars = [c] := by
  unfold ofChar
  split
  · rename_i op h
    simp [chars, Op.ofChar?_eq_some_iff.1 h]
  · split
    · simp_all [chars]
    · split <;> simp_all [chars]

theorem ofChar_ne_endOfInput (c : Char) : ofChar c ≠ endOfInput := by
  intro h
  have := chars_ofChar c
  rw [h] at this
  cases this

theorem ofChar_ne_number (c : Char) (digits : List Char) : ofChar c ≠ number digits := by
  unfold ofChar
  split
  · simp
  · split
    · simp
    · split <;> simp

end Lexeme

structure Token where
  lexeme : Lexeme
  location : Location
  deriving DecidableEq, Repr

def Token.kind (t : Token) : Kind :=
  t.lexeme.kind

end StepCalc
