import StepCalc.Proofs.Grammar.Reading
import StepCalc.Proofs.Token.Lexemes

/-!
# Reading as a machine

`Reading.Shift` lists the four ways in which a token is taken, and `run?` takes a
whole list of tokens. Reading takes the tokens before the first one that is refused, and
the state reached there together with the refused token decides the result.
-/

namespace StepCalc

namespace Reading

/-- `s` takes `t` and becomes `s'`. -/
inductive Shift (goal : Goal) (base : Nat) : Reading → Token → Reading → Prop
  | number {outer : List Group} {here : Group} {digits : List Char} {l : Location}
      (fits : Nat.ofDigitChars 10 digits 0 ≤ Value.largest) :
      Shift goal base ⟨outer, here, none⟩ ⟨.number digits, l⟩
        ⟨outer, here, some (.literal (.ofNat (Nat.ofDigitChars 10 digits 0)) l digits.length)⟩
  | opening {outer : List Group} {here : Group} {l : Location}
      (room : base + outer.length < ParseError.maxNesting) :
      Shift goal base ⟨outer, here, none⟩ ⟨.openParen, l⟩ ⟨here :: outer, .empty, none⟩
  | operator {outer : List Group} {here : Group} {e : Expr} {op : Op} {l : Location}
      (admitted : outer = [] → goal.admits op = true) :
      Shift goal base ⟨outer, here, some e⟩ ⟨.operator op, l⟩ ⟨outer, here.extend e op l, none⟩
  | closing {g : Group} {outer : List Group} {here : Group} {e : Expr} {l : Location} :
      Shift goal base ⟨g :: outer, here, some e⟩ ⟨.closeParen, l⟩ ⟨outer, g, some (here.close e)⟩

variable {goal : Goal} {base : Nat}

theorem Shift.shift?_eq {s s' : Reading} {t : Token} (h : Shift goal base s t s') :
    s.shift? goal base t = some s' := by
  cases h with
  | number fits => simp [shift?, fits]
  | opening room => simp [shift?, room]
  | @operator outer here e op l admitted =>
      cases outer with
      | nil => simp [shift?, admitted rfl]
      | cons g outer => simp [shift?]
  | closing => simp [shift?]

theorem shift?_eq_some_iff {s s' : Reading} {t : Token} :
    s.shift? goal base t = some s' ↔ Shift goal base s t s' := by
  refine ⟨fun h => ?_, Shift.shift?_eq⟩
  obtain ⟨outer, here, operand⟩ := s
  obtain ⟨x, l⟩ := t
  cases operand with
  | none =>
      cases x with
      | number digits =>
          by_cases fits : Nat.ofDigitChars 10 digits 0 ≤ Value.largest
          · rw [(Shift.number fits).shift?_eq] at h
            exact Option.some.inj h ▸ .number fits
          · simp [shift?, fits] at h
      | openParen =>
          by_cases room : base + outer.length < ParseError.maxNesting
          · rw [(Shift.opening room).shift?_eq] at h
            exact Option.some.inj h ▸ .opening room
          · simp [shift?, room] at h
      | _ => simp [shift?] at h
  | some e =>
      cases x with
      | operator op =>
          by_cases admitted : outer = [] → goal.admits op = true
          · rw [(Shift.operator admitted).shift?_eq] at h
            exact Option.some.inj h ▸ .operator admitted
          · simp_all [shift?]
      | closeParen =>
          cases outer with
          | nil => simp [shift?] at h
          | cons g outer =>
              rw [Shift.closing.shift?_eq] at h
              exact Option.some.inj h ▸ .closing
      | _ => simp [shift?] at h

/-- Takes all of the tokens, if each is taken. -/
def run? (goal : Goal) (base : Nat) (s : Reading) (ts : List Token) : Option Reading :=
  ts.foldlM (shift? goal base) s

@[simp] theorem run?_nil (s : Reading) : s.run? goal base [] = some s := rfl

theorem run?_cons (s : Reading) (t : Token) (ts : List Token) :
    s.run? goal base (t :: ts) = (s.shift? goal base t).bind (·.run? goal base ts) := rfl

theorem run?_append (s : Reading) (ts us : List Token) :
    s.run? goal base (ts ++ us) = (s.run? goal base ts).bind (·.run? goal base us) := by
  simp only [run?, List.foldlM_append]
  rfl

/-- A run is a first token taken and a run of the others. -/
theorem run?_cons_eq_some_iff {s s' : Reading} {t : Token} {ts : List Token} :
    s.run? goal base (t :: ts) = some s' ↔
      ∃ u, Shift goal base s t u ∧ u.run? goal base ts = some s' := by
  simp only [run?_cons, Option.bind_eq_some_iff, shift?_eq_some_iff]

theorem run?_append_eq_some_iff {s s' : Reading} {ts us : List Token} :
    s.run? goal base (ts ++ us) = some s' ↔
      ∃ u, s.run? goal base ts = some u ∧ u.run? goal base us = some s' := by
  simp only [run?_append, Option.bind_eq_some_iff]

theorem advance_of_run? {s s' : Reading} {ts : List Token} (h : s.run? goal base ts = some s')
    (rest : List Token) : s.advance goal base (ts ++ rest) = s'.advance goal base rest := by
  induction ts generalizing s with
  | nil => rw [Option.some.inj h, List.nil_append]
  | cons t ts ih =>
      obtain ⟨u, hu, hrun⟩ := run?_cons_eq_some_iff.1 h
      rw [List.cons_append, advance_cons_of_some hu.shift?_eq, ih hrun]

/-- What is taken runs, and what is left begins with a refused token. -/
theorem exists_run?_advance (goal : Goal) (base : Nat) (s : Reading) (ts : List Token) :
    ∃ taken, ts = taken ++ (s.advance goal base ts).2 ∧
      s.run? goal base taken = some (s.advance goal base ts).1 ∧
      ∀ t ∈ (s.advance goal base ts).2.head?,
        (s.advance goal base ts).1.shift? goal base t = none := by
  induction ts generalizing s with
  | nil => exact ⟨[], rfl, rfl, by simp [advance]⟩
  | cons t ts ih =>
      cases h : s.shift? goal base t with
      | none => exact ⟨[], by simp [advance_cons_of_none h, h]⟩
      | some u =>
          obtain ⟨taken, hts, hrun, hstop⟩ := ih u
          rw [advance_cons_of_some h]
          refine ⟨t :: taken, by rw [List.cons_append, ← hts], ?_, hstop⟩
          rw [run?_cons, h]
          exact hrun

/-- What it means to stop in `s` before `t`. -/
def verdict (s : Reading) (t : Token) : Except ParseError Expr :=
  match t.lexeme, s.result? with
  | .endOfInput, some e => .ok e
  | _, _ => .error (s.blame t)

theorem verdict_eq_ok_iff {s : Reading} {t : Token} {e : Expr} :
    s.verdict t = .ok e ↔ t.lexeme = .endOfInput ∧ s.result? = some e := by
  unfold verdict
  split
  · rename_i f hx hs
    simp [hx, hs]
  · rename_i hne
    constructor
    · intro h
      cases h
    · rintro ⟨hx, hs⟩
      exact (hne e hx hs).elim

theorem verdict_eq_error {s : Reading} {t : Token} {err : ParseError}
    (h : s.verdict t = .error err) :
    err = s.blame t ∧ (t.lexeme = .endOfInput → s.result? = none) := by
  unfold verdict at h
  split at h
  · cases h
  · rename_i hne
    refine ⟨(Except.error.inj h).symm, fun hx => ?_⟩
    cases hs : s.result? with
    | none => rfl
    | some e => exact (hne e hx hs).elim

theorem shift?_endOfInput (s : Reading) (l : Location) :
    s.shift? goal base ⟨.endOfInput, l⟩ = none := by
  cases h : s.shift? goal base ⟨.endOfInput, l⟩ with
  | none => rfl
  | some s' => cases shift?_eq_some_iff.1 h

end Reading

end StepCalc
