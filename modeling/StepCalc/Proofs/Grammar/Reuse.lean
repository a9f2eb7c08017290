import StepCalc.Proofs.Grammar.Acceptance
import StepCalc.Proofs.Grammar.EarliestError

/-!
# A parser in use

A parser answers call after call, each from where the last one stopped, also after
an error. `Parser.Consumes` accounts for a single call: which tokens it takes, what
it adds to the groups taken to be open, and what an error says about the token it
leaves in front. A call keeps a parser well formed, so the account holds of every
call in every sequence of calls.
-/

namespace StepCalc

/-- The last token is the last one of a factor. -/
def EndsFactor (ts : List Token) : Prop :=
  ∃ t ∈ ts.getLast?, t.kind = .number ∨ t.kind = .closeParen

/-- A factor has ended inside a group, which now waits for an operator or for its
closing parenthesis. -/
def ClosingDue (ts : List Token) : Prop :=
  EndsFactor ts ∧ 0 < balance (ts.map Token.lexeme)

namespace Reading

variable {goal : Goal} {base : Nat} {s : Reading} {ts : List Token}

/-- Which tokens a state has taken last decides whether it holds an operand. -/
theorem endsFactor_iff_of_run? (h : start.run? goal base ts = some s) :
    EndsFactor ts ↔ ∃ e, s.operand = some e := by
  rcases ts.eq_nil_or_concat with rfl | ⟨us, t, rfl⟩
  · obtain rfl := Option.some.inj h
    simp [EndsFactor, start]
  · rw [List.concat_eq_append] at h ⊢
    obtain ⟨u, -, hlast⟩ := run?_append_eq_some_iff.1 h
    obtain ⟨v, hshift, hv⟩ := run?_cons_eq_some_iff.1 hlast
    obtain rfl := Option.some.inj hv
    cases hshift <;> simp [EndsFactor, Token.kind, Lexeme.kind]

theorem length_outer_of_run?_start (h : start.run? goal base ts = some s) :
    (s.outer.length : Int) = balance (ts.map Token.lexeme) := by
  simpa [start] using length_outer_of_run? h

theorem closingDue_iff_of_run? (h : start.run? goal base ts = some s) :
    ClosingDue ts ↔ (∃ e, s.operand = some e) ∧ s.outer ≠ [] := by
  have hlen := length_outer_of_run?_start h
  rw [ClosingDue, endsFactor_iff_of_run? h, ← List.length_pos_iff]
  constructor
  · rintro ⟨hs, hpos⟩
    exact ⟨hs, by omega⟩
  · rintro ⟨hs, hpos⟩
    exact ⟨hs, by omega⟩

/-- A complaint about a missing parenthesis comes from inside a group only. -/
theorem exists_blame_eq_closeParen_iff (t : Token) :
    (∃ found l, s.blame t = .unexpectedToken .closeParen found l) ↔
      ((∃ e, s.operand = some e) ∧ s.outer ≠ []) ∧ ∀ c, t.lexeme ≠ .invalid c := by
  obtain ⟨outer, here, operand⟩ := s
  obtain ⟨x, l⟩ := t
  cases operand <;> cases outer <;> cases x <;> simp [blame, expected]

theorem abandoned_of_result? {e : Expr} (h : s.result? = some e) : s.abandoned = 0 := by
  obtain ⟨⟨f, hf⟩, houter⟩ := exists_of_result? h
  simp [abandoned, hf, houter]

/-- All open groups are abandoned, except one that waits to be closed. -/
theorem abandoned_eq (s : Reading) :
    (((∃ e, s.operand = some e) ∧ s.outer ≠ []) → s.abandoned + 1 = s.outer.length) ∧
      (¬ ((∃ e, s.operand = some e) ∧ s.outer ≠ []) → s.abandoned = s.outer.length) := by
  obtain ⟨outer, here, operand⟩ := s
  cases outer <;> cases operand <;> simp [abandoned]

end Reading

namespace Parser

/-- What can be asked of a parser. -/
inductive Call where
  | parse
  | read (goal : Goal)
  deriving DecidableEq, Repr

def call (p : Parser) : Call → Except ParseError Expr × Parser
  | .parse => p.parse
  | .read goal => p.read goal

/-- The parser after a sequence of calls, whatever each of them answers. -/
def called (p : Parser) (calls : List Call) : Parser :=
  calls.foldl (fun p c => (p.call c).2) p

/-- The tokens still to come, the end of the input among them. -/
def upcoming (p : Parser) : List Token :=
  p.rest ++ [⟨.endOfInput, p.finish⟩]

theorem head?_upcoming (p : Parser) : p.upcoming.head? = some p.current := by
  obtain ⟨rest, finish, depth⟩ := p
  cases rest <;> rfl

/-- A call that succeeds: it takes as many opening as closing parentheses. -/
structure Completes (p p' : Parser) (taken : List Token) : Prop where
  progress : taken ≠ []
  closed : balance (taken.map Token.lexeme) = 0
  depth : p'.depth = p.depth

/-- A call that fails with `err`: the complaint is about the token in front, and the
groups opened and not closed stay counted, one less if only a closing parenthesis could
end the innermost one. The error says that the parenthesis is missing, unless the token
in its place is no token at all. -/
structure Fails (p p' : Parser) (err : ParseError) (taken : List Token) : Prop where
  about : Explains err p'.current (¬ EndsFactor taken)
  location : err.location = p'.current.location
  missing : (∃ found l, err = .unexpectedToken .closeParen found l) ↔
    ClosingDue taken ∧ ∀ c, p'.current.lexeme ≠ .invalid c
  depth_of_due : ClosingDue taken →
    (p'.depth : Int) = p.depth + (balance (taken.map Token.lexeme) - 1)
  depth_of_not_due : ¬ ClosingDue taken →
    (p'.depth : Int) = p.depth + balance (taken.map Token.lexeme)

/-- What a call with the given answer takes from `p` to leave `p'`. -/
structure Consumes (p : Parser) (answer : Except ParseError Expr) (p' : Parser)
    (taken : List Token) : Prop where
  upcoming : p.upcoming = taken ++ p'.upcoming
  before_end : ∀ t ∈ taken, t.lexeme ≠ .endOfInput
  limit : p.depth + nesting (taken.map Token.lexeme) ≤ 256
  completes : ∀ e, answer = .ok e → Completes p p' taken
  fails : ∀ err, answer = .error err → Fails p p' err taken

/-- A parser whose open groups fit the limit and whose tokens end before the input does. -/
structure WellFormed (p : Parser) : Prop where
  depth_le : p.depth ≤ 256
  before_end : ∀ t ∈ p.rest, t.lexeme ≠ .endOfInput

theorem wellFormed_ofCursor (c : Cursor) : (ofCursor c).WellFormed :=
  ⟨Nat.zero_le _, fun _ ht => Cursor.lexeme_ne_endOfInput_of_mem ht⟩

variable {p : Parser}

theorem completes_of_run? {goal : Goal} {taken : List Token} {s : Reading} {e : Expr}
    (hrun : Reading.start.run? goal p.depth taken = some s) (hs : s.result? = some e)
    (left : List Token) : Completes p (p.leaves s left) taken := by
  obtain ⟨hoperand, houter⟩ := Reading.exists_of_result? hs
  refine ⟨?_, ?_, ?_⟩
  · rintro rfl
    simpa [EndsFactor] using (Reading.endsFactor_iff_of_run? hrun).2 hoperand
  · rw [← Reading.length_outer_of_run?_start hrun, houter]
    rfl
  · rw [leaves, Reading.abandoned_of_result? hs]
    rfl

theorem fails_of_run? {goal : Goal} {taken : List Token} {s : Reading}
    (hrun : Reading.start.run? goal p.depth taken = some s) (left : List Token) :
    Fails p (p.leaves s left) (s.blame (p.leaves s left).current) taken := by
  have hlen := Reading.length_outer_of_run?_start hrun
  have hdue := Reading.closingDue_iff_of_run? hrun
  obtain ⟨hclosing, hopen⟩ := s.abandoned_eq
  refine ⟨?_, s.location_blame _, ?_, fun h => ?_, fun h => ?_⟩
  · have hnone : (¬ EndsFactor taken) = (s.operand = none) := by
      rw [Reading.endsFactor_iff_of_run? hrun, ← Option.isSome_iff_exists,
        Option.not_isSome_iff_eq_none]
    rw [hnone]
    exact s.explains_blame _
  · rw [hdue]
    exact Reading.exists_blame_eq_closeParen_iff _
  · have := hclosing (hdue.1 h)
    simp only [leaves]
    omega
  · have := hopen (mt hdue.2 h)
    simp only [leaves]
    omega

/-- A call stops where the machine does, and answers from the state reached. -/
theorem exists_call_eq (hp : p.WellFormed) (c : Call) :
    ∃ goal s left answer, Reading.start.advance goal p.depth p.rest = (s, left) ∧
      p.call c = (answer, p.leaves s left) ∧
      ((∃ e, s.result? = some e ∧ answer = .ok e) ∨
        answer = .error (s.blame (p.leaves s left).current)) := by
  cases c with
  | read goal =>
      refine ⟨goal, _, _, _, rfl, read_eq hp.depth_le rfl, ?_⟩
      cases hs : (Reading.start.advance goal p.depth p.rest).1.result? with
      | some e => exact .inl ⟨e, rfl, Reading.outcome_of_result? hs _⟩
      | none => exact .inr (Reading.outcome_of_no_result? hs _)
  | parse =>
      refine ⟨.expression, _, _, _, rfl, parse_eq hp.depth_le rfl, ?_⟩
      cases hanswer : Reading.verdict _ _ with
      | ok e => exact .inl ⟨e, (Reading.verdict_eq_ok_iff.1 hanswer).2, rfl⟩
      | error err => exact .inr (congrArg _ (Reading.verdict_eq_error hanswer).1)

theorem exists_consumes_call (hp : p.WellFormed) (c : Call) :
    ∃ taken, Consumes p (p.call c).1 (p.call c).2 taken := by
  obtain ⟨goal, s, left, answer, hadvance, hcall, hanswer⟩ := exists_call_eq hp c
  obtain ⟨taken, hrest, hrun, -⟩ := Reading.exists_run?_advance goal p.depth .start p.rest
  rw [hadvance] at hrest hrun
  have hbefore : ∀ t ∈ taken, t.lexeme ≠ .endOfInput := by
    intro t ht
    apply hp.before_end
    rw [hrest]
    exact List.mem_append_left _ ht
  have hlimit : p.depth + nesting (taken.map Token.lexeme) ≤ 256 := by
    simpa [Reading.start, ParseError.maxNesting] using
      Reading.nesting_le_of_run? hrun hp.depth_le
  have hupcoming : p.upcoming = taken ++ (p.leaves s left).upcoming := by
    rw [upcoming, hrest, List.append_assoc]
    rfl
  refine ⟨taken, ?_⟩
  rw [hcall]
  refine ⟨hupcoming, hbefore, hlimit, ?_, ?_⟩
  · rintro e rfl
    obtain ⟨f, hs, -⟩ | hanswer := hanswer
    · exact completes_of_run? hrun hs left
    · cases hanswer
  · rintro err rfl
    obtain ⟨f, -, hanswer⟩ | hanswer := hanswer
    · cases hanswer
    · cases hanswer
      exact fails_of_run? hrun left

theorem Consumes.depth_le {answer : Except ParseError Expr} {p' : Parser} {taken : List Token}
    (h : Consumes p answer p' taken) : p'.depth ≤ 256 := by
  have hlimit := h.limit
  have hbalance := balance_le_nesting (taken.map Token.lexeme)
  have hnonneg := nesting_nonneg (taken.map Token.lexeme)
  cases hanswer : answer with
  | ok e =>
      have := (h.completes e hanswer).depth
      omega
  | error err =>
      have hfails := h.fails err hanswer
      by_cases hdue : ClosingDue taken
      · have := hfails.depth_of_due hdue
        omega
      · have := hfails.depth_of_not_due hdue
        omega

/-- One call keeps a parser well formed and leaves an end of its tokens. -/
theorem WellFormed.call (hp : p.WellFormed) (c : Call) :
    (p.call c).2.WellFormed ∧ (p.call c).2.upcoming <:+ p.upcoming := by
  obtain ⟨taken, h⟩ := exists_consumes_call hp c
  have hsuffix : (p.call c).2.upcoming <:+ p.upcoming := ⟨taken, h.upcoming.symm⟩
  refine ⟨⟨h.depth_le, fun t ht => ?_⟩, hsuffix⟩
  have hrest : (p.call c).2.rest <:+ p.rest := by
    have := h.upcoming
    simp only [upcoming, ← List.append_assoc] at this
    exact ⟨taken, (List.append_inj' this rfl).1.symm⟩
  exact hp.before_end t (hrest.subset ht)

/-- So does every sequence of calls. -/
theorem WellFormed.called (hp : p.WellFormed) (calls : List Call) :
    (p.called calls).WellFormed ∧ (p.called calls).upcoming <:+ p.upcoming := by
  induction calls generalizing p with
  | nil => exact ⟨hp, List.suffix_refl _⟩
  | cons c calls ih =>
      obtain ⟨hcall, hsuffix⟩ := hp.call c
      obtain ⟨hcalled, hrest⟩ := ih hcall
      exact ⟨hcalled, hrest.trans hsuffix⟩

/-- Whatever has been asked of a parser before, its open groups fit the limit, its
tokens are an end of those it began with, and the next call accounts for what it takes. -/
theorem consumes_call_of_called (c : Cursor) (calls : List Call) (next : Call) :
    ((ofCursor c).called calls).depth ≤ 256 ∧
      ((ofCursor c).called calls).upcoming <:+ c.tokens ∧
      ((ofCursor c).called calls).upcoming.head? = some ((ofCursor c).called calls).current ∧
      ∃ taken, Consumes ((ofCursor c).called calls) (((ofCursor c).called calls).call next).1
        (((ofCursor c).called calls).call next).2 taken := by
  obtain ⟨hwell, hsuffix⟩ := (wellFormed_ofCursor c).called calls
  exact ⟨hwell.depth_le, hsuffix, head?_upcoming _, exists_consumes_call hwell next⟩

/-- An invalid character in the place of a closing parenthesis: a group is open and the error
is not that its parenthesis is missing, but the group is no longer counted. -/
theorem depth_after_invalid_character :
    ∃ taken, (ofString "(1#").upcoming = taken ++ (ofString "(1#").parse.2.upcoming ∧
      balance (taken.map Token.lexeme) = 1 ∧
      (ofString "(1#").parse.1 = .error (.unexpectedCharacter '#' ⟨2, 1, 3⟩) ∧
      (ofString "(1#").depth = 0 ∧ (ofString "(1#").parse.2.depth = 0 := by
  have hscan : (Cursor.ofString "(1#").scan =
      ⟨[⟨.openParen, ⟨0, 1, 1⟩⟩, ⟨.number ['1'], ⟨1, 1, 2⟩⟩, ⟨.invalid '#', ⟨2, 1, 3⟩⟩],
        ⟨3, 1, 4⟩⟩ := by
    decide +kernel
  rw [ofString, ofCursor, hscan, parse_eq (Nat.zero_le _) rfl]
  exact ⟨[⟨.openParen, ⟨0, 1, 1⟩⟩, ⟨.number ['1'], ⟨1, 1, 2⟩⟩], rfl, rfl, rfl, rfl, rfl⟩

end Parser

end StepCalc
