import StepCalc.Token.Cursor

/-!
# The lexemes of a text

What scanning reads apart from places. `lexemes` is described by one equation for
each way a text can begin: with a blank, with a run of digits, or with a symbol.
The lexemes that occur are those of `Lexeme.Scanned`, and conversely `spaced`
writes any list of them as a text that is scanned back to the same list.
-/

namespace StepCalc

namespace Cursor

/-- Induction along a scan: what holds of the cursor after the next token, unless
that token is the end of the input, holds of the cursor before it. -/
@[elab_as_elim]
theorem scan_induction {motive : Cursor → Prop}
    (step : ∀ c : Cursor, (c.next.1.lexeme ≠ .endOfInput → motive c.next.2) → motive c)
    (c : Cursor) : motive c := by
  induction h : c.rest.length using Nat.strongRecOn generalizing c with
  | ind n ih =>
      apply step
      intro hc
      exact ih _ (h ▸ length_next_lt hc) c.next.2 rfl

theorem lexeme_ne_endOfInput_of_mem {c : Cursor} {t : Token} (h : t ∈ c.scan.tokens) :
    t.lexeme ≠ .endOfInput := by
  induction c using scan_induction with
  | step c ih =>
      rw [scan_eq] at h
      by_cases hc : c.next.1.lexeme = .endOfInput
      · simp [hc] at h
      · simp only [hc, if_false, List.mem_cons] at h
        rcases h with rfl | h
        · exact hc
        · exact ih hc h

/-- The place of a cursor has no part in what it reads next. -/
theorem next_congr {c d : Cursor} (h : c.rest = d.rest) :
    c.next.1.lexeme = d.next.1.lexeme ∧ c.next.2.rest = d.next.2.rest := by
  simp only [next, skipWhile, take, h]
  split
  · exact ⟨rfl, rfl⟩
  · split <;> exact ⟨rfl, rfl⟩

theorem map_lexeme_congr {c d : Cursor} (h : c.rest = d.rest) :
    c.scan.tokens.map Token.lexeme = d.scan.tokens.map Token.lexeme := by
  induction c using scan_induction generalizing d with
  | step c ih =>
      obtain ⟨hx, hr⟩ := next_congr h
      rw [scan_eq c, scan_eq d, ← hx]
      by_cases hc : c.next.1.lexeme = .endOfInput
      · rw [if_pos hc, if_pos hc]
      · rw [if_neg hc, if_neg hc]
        simp only [List.map_cons, ih hc hr, hx]

end Cursor

/-- The lexemes of a text, without the end of the input. -/
def lexemes (cs : List Char) : List Lexeme :=
  (Cursor.mk cs .start).scan.tokens.map Token.lexeme

namespace Cursor

theorem map_lexeme_scan (c : Cursor) : c.scan.tokens.map Token.lexeme = lexemes c.rest :=
  map_lexeme_congr rfl

/-- The lexeme that is read next, and the lexemes after it. -/
theorem lexemes_rest (c : Cursor) :
    lexemes c.rest = if c.next.1.lexeme = .endOfInput then []
      else c.next.1.lexeme :: lexemes c.next.2.rest := by
  rw [← map_lexeme_scan, ← map_lexeme_scan, scan_eq c]
  split <;> rfl

end Cursor

theorem tokenize_eq (source : String) :
    tokenize source = (Cursor.ofString source).scan.tokens ++
      [⟨.endOfInput, (Cursor.ofString source).scan.finish⟩] := rfl

theorem dropLast_tokenize (source : String) :
    (tokenize source).dropLast = (Cursor.ofString source).scan.tokens := by
  simp [tokenize_eq]

theorem map_lexeme_tokenize (source : String) :
    (tokenize source).map Token.lexeme = lexemes source.toList ++ [.endOfInput] := by
  simp only [tokenize_eq, List.map_append, Cursor.map_lexeme_scan]
  rfl

@[simp] theorem lexemes_nil : lexemes [] = [] := by
  rw [Cursor.lexemes_rest ⟨[], .start⟩]
  rfl

theorem lexemes_blank_cons {c : Char} (cs : List Char) (hc : Text.isBlank c = true) :
    lexemes (c :: cs) = lexemes cs := by
  have h : (Cursor.mk (c :: cs) .start).next = (Cursor.mk cs (Location.start.advance c)).next := by
    simp [Cursor.next, Cursor.skipWhile, hc]
  rw [Cursor.lexemes_rest ⟨c :: cs, .start⟩, h, ← Cursor.lexemes_rest]

/-- A symbol is a lexeme by itself. -/
theorem lexemes_symbol_cons {c : Char} (cs : List Char) (hb : Text.isBlank c = false)
    (hd : c.isDigit = false) : lexemes (c :: cs) = .ofChar c :: lexemes cs := by
  rw [Cursor.lexemes_rest ⟨c :: cs, .start⟩]
  simp [Cursor.next, Cursor.skipWhile, Cursor.take, hb, hd, Lexeme.ofChar_ne_endOfInput]

/-- A run of digits is one lexeme if no further digit follows. -/
theorem lexemes_digits_append {ds rest : List Char} (hne : ds ≠ [])
    (hd : ∀ d ∈ ds, d.isDigit = true) (hr : ∀ c ∈ rest.head?, c.isDigit = false) :
    lexemes (ds ++ rest) = .number ds :: lexemes rest := by
  have htake : (ds ++ rest).takeWhile Char.isDigit = ds := by
    rw [List.takeWhile_append_of_pos hd]
    cases rest with
    | nil => simp
    | cons c rest => simp [hr c rfl]
  have hdrop : (ds ++ rest).dropWhile Char.isDigit = rest := by
    rw [List.dropWhile_append_of_pos hd]
    cases rest with
    | nil => simp
    | cons c rest => simp [hr c rfl]
  rw [Cursor.lexemes_rest ⟨ds ++ rest, .start⟩]
  cases ds with
  | nil => exact absurd rfl hne
  | cons d ds =>
      have hfirst : d.isDigit = true := hd d (by simp)
      have hblank : Text.isBlank d = false := Text.isBlank_eq_false_of_isDigit hfirst
      simp only [List.cons_append] at htake hdrop ⊢
      simp only [Cursor.next, Cursor.skipWhile, Cursor.take, List.dropWhile_cons, hblank, hfirst,
        if_true, Bool.false_eq_true, if_false, reduceCtorEq]
      simp only [List.takeWhile_cons, hfirst, if_true, List.dropWhile_cons] at htake hdrop ⊢
      rw [htake, hdrop]

/-- The lexemes that scanning a text can give. -/
inductive Lexeme.Scanned : Lexeme → Prop
  | number {digits : List Char} (nonempty : digits ≠ [])
      (digit : ∀ d ∈ digits, d.isDigit = true) : Scanned (.number digits)
  | symbol {c : Char} (notBlank : Text.isBlank c = false) (notDigit : c.isDigit = false) :
      Scanned (.ofChar c)

theorem Cursor.scanned_next {c : Cursor} (h : c.next.1.lexeme ≠ .endOfInput) :
    c.next.1.lexeme.Scanned := by
  cases hr : c.rest.dropWhile Text.isBlank with
  | nil => simp [next, skipWhile, take, hr] at h
  | cons x rest =>
      have hx : Text.isBlank x = false := by
        have := List.head?_dropWhile_not Text.isBlank c.rest
        simpa [hr] using this
      by_cases hd : x.isDigit = true
      · simp only [next, skipWhile, take, hr, hd, if_true]
        refine .number (by simp [hd]) fun d hm => ?_
        exact List.all_eq_true.1 List.all_takeWhile d hm
      · simp only [next, skipWhile, take, hr, hd]
        exact .symbol hx (by simpa using hd)

theorem scanned_of_mem_lexemes {cs : List Char} {x : Lexeme} (h : x ∈ lexemes cs) :
    x.Scanned := by
  have key : ∀ c : Cursor, x ∈ lexemes c.rest → x.Scanned := by
    intro c
    induction c using Cursor.scan_induction with
    | step c ih =>
        intro hx
        rw [Cursor.lexemes_rest] at hx
        by_cases hc : c.next.1.lexeme = .endOfInput
        · simp [hc] at hx
        · simp only [hc, if_false, List.mem_cons] at hx
          rcases hx with rfl | hx
          · exact Cursor.scanned_next hc
          · exact ih hc hx
  exact key ⟨cs, .start⟩ h

/-- A text with a blank after every lexeme. -/
def spaced (xs : List Lexeme) : List Char :=
  xs.flatMap fun x => x.chars ++ [' ']

theorem lexemes_spaced {xs : List Lexeme} (h : ∀ x ∈ xs, x.Scanned) :
    lexemes (spaced xs) = xs := by
  induction xs with
  | nil => exact lexemes_nil
  | cons x xs ih =>
      obtain ⟨hx, hxs⟩ := List.forall_mem_cons.1 h
      have hrest : lexemes (' ' :: spaced xs) = xs := by
        rw [lexemes_blank_cons _ (by decide), ih hxs]
      have hsplit : spaced (x :: xs) = x.chars ++ ' ' :: spaced xs := by
        simp [spaced]
      rw [hsplit]
      cases hx with
      | number nonempty digit =>
          rw [Lexeme.chars, lexemes_digits_append nonempty digit (by simp), hrest]
      | symbol notBlank notDigit =>
          rw [Lexeme.chars_ofChar, List.singleton_append,
            lexemes_symbol_cons _ notBlank notDigit, hrest]

end StepCalc
