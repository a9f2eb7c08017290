import StepCalc.Text.Blank
import StepCalc.Token.Basic

/-!
# Scanning

A cursor stands at a place of a source text with the characters that remain.
`next` skips blanks and reads one token: the longest run of ASCII digits, or a
single character. At the end it reads the end-of-input token, again and again.
`scan` collects all that remain; `scan_eq` describes it one token at a time.
-/

namespace StepCalc

structure Cursor where
  rest : List Char
  location : Location
  deriving DecidableEq, Repr

namespace Cursor

def ofString (source : String) : Cursor :=
  ⟨source.toList, .start⟩

def atEnd (c : Cursor) : Bool :=
  c.rest.isEmpty

/-- Moves past the longest run of characters that satisfy `p`. -/
def skipWhile (c : Cursor) (p : Char → Bool) : Cursor :=
  ⟨c.rest.dropWhile p, c.location.after (c.rest.takeWhile p)⟩

/-- Reads the token that stands at the cursor, where no blank does. -/
def take (c : Cursor) : Token × Cursor :=
  match c.rest with
  | [] => (⟨.endOfInput, c.location⟩, c)
  | x :: rest =>
    if x.isDigit then
      (⟨.number (c.rest.takeWhile Char.isDigit), c.location⟩, c.skipWhile Char.isDigit)
    else (⟨.ofChar x, c.location⟩, ⟨rest, c.location.advance x⟩)

/-- Reads one token. -/
def next (c : Cursor) : Token × Cursor :=
  (c.skipWhile Text.isBlank).take

theorem length_skipWhile_le (c : Cursor) (p : Char → Bool) :
    (c.skipWhile p).rest.length ≤ c.rest.length :=
  (List.dropWhile_suffix p).length_le

theorem length_take_lt {c : Cursor} (h : c.take.1.lexeme ≠ .endOfInput) :
    c.take.2.rest.length < c.rest.length := by
  unfold take at h ⊢
  split at h <;> rename_i hr
  · exact absurd rfl h
  · split
    · rename_i hx
      simp only [skipWhile, hr, List.dropWhile_cons, hx, if_true, List.length_cons]
      exact Nat.lt_succ_of_le (List.dropWhile_suffix _).length_le
    · simp [hr]

/-- Every token but the last shortens what remains. -/
theorem length_next_lt {c : Cursor} (h : c.next.1.lexeme ≠ .endOfInput) :
    c.next.2.rest.length < c.rest.length :=
  Nat.lt_of_lt_of_le (length_take_lt h) (length_skipWhile_le c _)

/-- The tokens before the end of the input, latest first, on top of `read`, and
the place where the input ends. -/
def scanOnto (read : List Token) (c : Cursor) : List Token × Location :=
  if c.next.1.lexeme = .endOfInput then (read, c.next.1.location)
  else scanOnto (c.next.1 :: read) c.next.2
termination_by c.rest.length
decreasing_by exact length_next_lt ‹_›

end Cursor

/-- The tokens of a text in order, and the place where the text ends. -/
structure Scan where
  tokens : List Token
  finish : Location
  deriving DecidableEq, Repr

/-- The tokens with the end-of-input token at the end. -/
def Scan.toList (s : Scan) : List Token :=
  s.tokens ++ [⟨.endOfInput, s.finish⟩]

namespace Cursor

/-- What remains, token by token. -/
def scan (c : Cursor) : Scan :=
  ⟨(c.scanOnto []).1.reverse, (c.scanOnto []).2⟩

/-- The tokens that remain, of which the last is the end of the input. -/
def tokens (c : Cursor) : List Token :=
  c.scan.toList

/-- Reads all that remains; only the end of the input is left. -/
def readAll (c : Cursor) : List Token × Cursor :=
  (c.tokens, ⟨[], c.scan.finish⟩)

theorem scanOnto_eq (read : List Token) (c : Cursor) :
    c.scanOnto read = (c.scan.tokens.reverse ++ read, c.scan.finish) := by
  have key : ∀ (n : Nat) (c : Cursor) (read : List Token), c.rest.length ≤ n →
      c.scanOnto read = ((c.scanOnto []).1 ++ read, (c.scanOnto []).2) := by
    intro n
    induction n with
    | zero =>
      intro c read hn
      unfold scanOnto
      have hend : c.next.1.lexeme = .endOfInput := by
        refine Decidable.byContradiction fun h => ?_
        have := length_next_lt h
        omega
      simp [hend]
    | succ n ih =>
      intro c read hn
      unfold scanOnto
      split
      · rfl
      · rename_i h
        have hlt : c.next.2.rest.length ≤ n := by
          have := length_next_lt h
          omega
        rw [ih c.next.2 (c.next.1 :: read) hlt, ih c.next.2 [c.next.1] hlt]
        simp
  have h := key c.rest.length c read (Nat.le_refl _)
  simpa [scan] using h

/-- Scanning reads one token and goes on from there. -/
theorem scan_eq (c : Cursor) :
    c.scan = if c.next.1.lexeme = .endOfInput then ⟨[], c.next.1.location⟩
      else ⟨c.next.1 :: c.next.2.scan.tokens, c.next.2.scan.finish⟩ := by
  have h : c.scanOnto [] = if c.next.1.lexeme = .endOfInput then ([], c.next.1.location)
      else (c.next.2.scan.tokens.reverse ++ [c.next.1], c.next.2.scan.finish) := by
    rw [scanOnto, scanOnto_eq]
  conv => lhs; unfold scan
  rw [h]
  split <;> simp

theorem tokens_eq (c : Cursor) :
    c.tokens = if c.next.1.lexeme = .endOfInput then [⟨.endOfInput, c.next.1.location⟩]
      else c.next.1 :: c.next.2.tokens := by
  unfold tokens
  rw [scan_eq]
  split <;> rfl

end Cursor

/-- All tokens of a source text. -/
def tokenize (source : String) : List Token :=
  (Cursor.ofString source).tokens

end StepCalc
