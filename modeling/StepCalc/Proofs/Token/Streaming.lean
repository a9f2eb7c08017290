import StepCalc.Proofs.Token.Accounting

/-!
# Reading token by token

A cursor can be asked for one token or for all that remain, over and over and in any
order. A single token is the first of those that remain, and reading it leaves the others;
only the end of the input stays. So after any calls the cursor has before it an end of the
tokens of the whole text, and how long that is follows from the calls alone.
-/

namespace StepCalc

namespace Cursor

/-- What a cursor can be asked for. -/
inductive Call where
  | next
  | all
  deriving DecidableEq, Repr

/-- The tokens that answer a call, and the cursor after it. -/
def call (c : Cursor) : Call → List Token × Cursor
  | .next => ([c.next.1], c.next.2)
  | .all => c.readAll

/-- The cursor after a sequence of calls. -/
def called (c : Cursor) (calls : List Call) : Cursor :=
  calls.foldl (fun c q => (c.call q).2) c

@[simp] theorem called_nil (c : Cursor) : c.called [] = c := rfl

@[simp] theorem called_cons (c : Cursor) (q : Call) (calls : List Call) :
    c.called (q :: calls) = (c.call q).2.called calls := rfl

section End

variable {c : Cursor}

theorem scan_nil (l : Location) : (Cursor.mk [] l).scan = ⟨[], l⟩ := by
  rw [scan_eq]
  rfl

/-- Where nothing remains, no call changes the cursor. -/
theorem called_of_rest_nil (h : c.rest = []) (calls : List Call) : c.called calls = c := by
  obtain ⟨rest, l⟩ := c
  obtain rfl : rest = [] := h
  induction calls with
  | nil => rfl
  | cons q calls ih =>
      have hcall : ((Cursor.mk [] l).call q).2 = ⟨[], l⟩ := by
        cases q with
        | next => rfl
        | all => rw [call, readAll, scan_nil]
      rw [called_cons, hcall, ih]

/-- The end of the input is read where nothing remains but blanks, which are skipped. -/
theorem next_of_endOfInput (h : c.next.1.lexeme = .endOfInput) :
    c.next = (⟨.endOfInput, c.next.1.location⟩, ⟨[], c.next.1.location⟩) := by
  change (c.skipWhile Text.isBlank).take.1.lexeme = .endOfInput at h
  obtain ⟨-, ⟨-, hrest⟩ | ⟨hscanned, -⟩⟩ :=
    (c.skipWhile Text.isBlank).take_cases (c.head_skipWhile _)
  · unfold next
    generalize c.skipWhile Text.isBlank = d at hrest
    obtain ⟨rest, l⟩ := d
    obtain rfl : rest = [] := hrest
    rfl
  · exact absurd h hscanned.ne_endOfInput

/-- Once the end of the input has been read, nothing else is. -/
theorem next_absorbs (h : c.next.1.lexeme = .endOfInput) (calls : List Call) :
    c.next.2.called calls = c.next.2 ∧ (c.next.2.called calls).next = c.next := by
  rw [next_of_endOfInput h, called_of_rest_nil rfl]
  exact ⟨rfl, rfl⟩

end End

section Progress

variable (c : Cursor)

/-- A token moves the cursor over the characters that it takes from what remains. -/
theorem offset_next :
    c.next.2.location.offset + c.next.2.rest.length = c.location.offset + c.rest.length := by
  obtain ⟨blanks, -, hlocation, ⟨hend, hrest⟩ | ⟨-, hrest, hlocation', -⟩⟩ := c.next_cases
  · rw [next_of_endOfInput hend, hrest, hlocation]
    simp
  · rw [hlocation', hrest]
    simp only [Location.after_offset, List.length_append]
    omega

theorem offset_lt_next {c : Cursor} (h : c.next.1.lexeme ≠ .endOfInput) :
    c.location.offset < c.next.2.location.offset := by
  have hoffset := c.offset_next
  have hlength := length_next_lt h
  omega

end Progress

section Remaining

variable (c : Cursor)

/-- The next token is the first of those that remain. -/
theorem head?_tokens : c.tokens.head? = some c.next.1 := by
  rw [tokens_eq]
  split
  · rename_i h
    rw [next_of_endOfInput h]
    rfl
  · rfl

theorem length_tokens_pos : 0 < c.tokens.length := by
  simp [tokens, Scan.toList]

/-- The next token is no longer among those that remain, unless it is the last. -/
theorem tokens_next : c.next.2.tokens = c.tokens.drop (min 1 (c.tokens.length - 1)) := by
  by_cases h : c.next.1.lexeme = .endOfInput
  · have htokens : c.next.2.tokens = [⟨.endOfInput, c.next.1.location⟩] := by
      rw [next_of_endOfInput h, tokens, scan_nil]
      rfl
    rw [htokens, tokens_eq c, if_pos h]
    rfl
  · have hpos := c.next.2.length_tokens_pos
    rw [tokens_eq c, if_neg h, List.length_cons, Nat.add_sub_cancel, Nat.min_eq_left hpos]
    rfl

end Remaining

section Runs

/-- How many of the tokens before number `last` have been read after some calls. -/
def Call.reach (last : Nat) (calls : List Call) : Nat :=
  if .all ∈ calls then last else min calls.length last

theorem offset_finish (c : Cursor) :
    c.scan.finish.offset = c.location.offset + c.rest.length := by
  induction c using scan_induction with
  | step c ih =>
      have hoffset := c.offset_next
      rw [scan_eq]
      split
      · rename_i h
        rw [next_of_endOfInput h] at hoffset
        simpa using hoffset
      · rename_i h
        exact (ih h).trans hoffset

theorem offset_call (c : Cursor) (q : Call) :
    (c.call q).2.location.offset + (c.call q).2.rest.length =
      c.location.offset + c.rest.length := by
  cases q with
  | next => exact c.offset_next
  | all => exact c.offset_finish

theorem offset_called (c : Cursor) (calls : List Call) :
    (c.called calls).location.offset + (c.called calls).rest.length =
      c.location.offset + c.rest.length := by
  induction calls generalizing c with
  | nil => rfl
  | cons q calls ih => rw [called_cons, ih, offset_call]

/-- Reading all that remains ends where single tokens do. -/
theorem readAll_eq_called (c : Cursor) :
    c.readAll.2 = c.called (List.replicate c.tokens.length .next) := by
  induction c using scan_induction with
  | step c ih =>
      rw [tokens_eq, readAll, scan_eq]
      split
      · rename_i h
        change _ = c.next.2
        rw [next_of_endOfInput h]
      · rename_i h
        exact ih h

/-- After any calls the tokens that remain are an end of those at the beginning. -/
theorem tokens_called (c : Cursor) (calls : List Call) :
    (c.called calls).tokens = c.tokens.drop (Call.reach (c.tokens.length - 1) calls) := by
  induction calls generalizing c with
  | nil => simp [Call.reach]
  | cons q calls ih =>
      have hpos := c.length_tokens_pos
      cases q with
      | next =>
          have hreach : min 1 (c.tokens.length - 1) +
              Call.reach ((c.tokens.drop (min 1 (c.tokens.length - 1))).length - 1) calls =
                Call.reach (c.tokens.length - 1) (.next :: calls) := by
            simp only [Call.reach, List.mem_cons, reduceCtorEq, false_or, List.length_drop,
              List.length_cons]
            split <;> omega
          rw [called_cons, ih, call, tokens_next, List.drop_drop, hreach]
      | all =>
          -- nothing remains, so the calls that follow make no difference
          have hlast : c.tokens.drop (c.tokens.length - 1) = [⟨.endOfInput, c.scan.finish⟩] := by
            simp [tokens, Scan.toList]
          rw [called_cons, call, readAll, called_of_rest_nil rfl, tokens, scan_nil]
          simpa [Call.reach, Scan.toList] using hlast.symm

end Runs

/-- What a cursor on `source` shows that stands before token number `k`. -/
structure Streams (source : String) (k : Nat) (c : Cursor) : Prop where
  next : (tokenize source)[k]? = some c.next.1
  all : c.readAll.1 = (tokenize source).drop k
  drained : c.readAll.2 = c.called (List.replicate c.tokens.length .next)
  within : c.location.offset ≤ source.length
  progress : c.next.1.lexeme ≠ .endOfInput → c.location.offset < c.next.2.location.offset
  absorbing : c.next.1.lexeme = .endOfInput → c.next.2.atEnd = true ∧
    ∀ calls, c.next.2.called calls = c.next.2 ∧ (c.next.2.called calls).next = c.next
  atEnd : c.atEnd = true → ∀ calls, (c.called calls).atEnd = true

theorem streams_called (source : String) (calls : List Call) :
    Streams source (Call.reach ((tokenize source).length - 1) calls)
      ((ofString source).called calls) := by
  have htokens := tokens_called (ofString source) calls
  constructor
  case next =>
    rw [← head?_tokens, htokens, List.head?_drop]
    rfl
  case all => exact htokens
  case drained => exact readAll_eq_called _
  case within =>
    have hoffset := offset_called (ofString source) calls
    simp only [ofString, Location.start, String.length_toList] at hoffset ⊢
    omega
  case progress => exact offset_lt_next
  case absorbing =>
    intro hend
    exact ⟨by rw [next_of_endOfInput hend]; rfl, next_absorbs hend⟩
  case atEnd =>
    intro hend more
    rw [called_of_rest_nil (List.isEmpty_iff.1 hend)]
    exact hend

/-- Tokens that are read one after the other are those that are read at once, and after
any calls what remains is an end of them. The end of the input is read last, and then
again and again. -/
theorem streaming_agrees_with_tokenize (source : String) :
    (∀ n, Streams source (min n ((tokenize source).length - 1))
      ((ofString source).called (List.replicate n .next))) ∧
      ∀ calls, Streams source (Call.reach ((tokenize source).length - 1) calls)
        ((ofString source).called calls) := by
  refine ⟨fun n => ?_, streams_called source⟩
  have hreach : Call.reach ((tokenize source).length - 1) (List.replicate n .next) =
      min n ((tokenize source).length - 1) := by
    simp [Call.reach]
  rw [← hreach]
  exact streams_called source _

-- Blanks behind the last token are skipped only with the end of the input.
example : ((ofString "7  ").called [.next]).atEnd = false ∧
    ((ofString "7  ").called [.next, .next]).atEnd = true := by
  decide +kernel

end Cursor

end StepCalc
