import StepCalc.Proofs.Grammar.Machine

/-!
# The descent follows the machine

A call for a goal takes the tokens that the machine takes from the state in which the goal
may begin (`Parser.Follows`). If it succeeds, the machine has completed the goal. If it
fails, the machine has stopped in front of the same token, and what the call leaves in the
counter can be told from the state: all groups that are open, except one that waits for its
closing parenthesis only (`Parser.read_eq`).
-/

namespace StepCalc

namespace Goal

/-- No operator of the goal comes next. -/
def Ends (goal : Goal) (ts : List Token) : Prop :=
  ∀ op l, ts.head? = some ⟨.operator op, l⟩ → goal.admits op = false

theorem ends_factor (ts : List Token) : factor.Ends ts :=
  fun _ _ _ => rfl

theorem admits_goal (op : Op) : op.goal.admits op = true := by
  cases op <;> rfl

theorem admits_of_part {goal : Goal} {op : Op} (h : goal.part.admits op = true) :
    goal.admits op = true := by
  cases goal <;> cases op <;> simp_all [part, admits]

theorem admits_eq_false {goal : Goal} {op : Op} (hpart : goal.part.admits op = false)
    (hop : op.goal ≠ goal) : goal.admits op = false := by
  cases goal <;> cases op <;> simp_all [part, admits, Op.goal]

end Goal

namespace Reading

variable {goal : Goal} {base : Nat} {outer : List Group} {here : Group} {s u : Reading}
  {e left right : Expr} {op : Op} {l : Location}

theorem advance_eq_self {ts : List Token}
    (h : ∀ t, ts.head? = some t → s.shift? goal base t = none) :
    s.advance goal base ts = (s, ts) := by
  cases ts with
  | nil => rfl
  | cons t ts => exact advance_cons_of_none (h t rfl)

/-- Behind an operand only operators and closing parentheses are taken. -/
theorem advance_operand {ts : List Token}
    (hop : ∀ op l, ts.head? = some ⟨.operator op, l⟩ → outer = [] ∧ goal.admits op = false)
    (hclose : ∀ l, ts.head? = some ⟨.closeParen, l⟩ → outer = []) :
    (Reading.mk outer here (some e)).advance goal base ts = (⟨outer, here, some e⟩, ts) := by
  apply advance_eq_self
  intro t ht
  cases hshift : (Reading.mk outer here (some e)).shift? goal base t with
  | none => rfl
  | some u =>
      cases shift?_eq_some_iff.1 hshift with
      | operator admitted =>
          obtain ⟨houter, hadmits⟩ := hop _ _ ht
          rw [admitted houter] at hadmits
          cases hadmits
      | closing => cases hclose _ ht

/-- Where an operand is due, only numbers and opening parentheses are taken. -/
theorem advance_no_operand {ts : List Token}
    (hnumber : ∀ digits l, ts.head? = some ⟨.number digits, l⟩ →
      ¬ Nat.ofDigitChars 10 digits 0 ≤ Value.largest)
    (hopen : ∀ l, ts.head? = some ⟨.openParen, l⟩ → ¬ base + outer.length < ParseError.maxNesting) :
    (Reading.mk outer here none).advance goal base ts = (⟨outer, here, none⟩, ts) := by
  apply advance_eq_self
  intro t ht
  cases hshift : (Reading.mk outer here none).shift? goal base t with
  | none => rfl
  | some u =>
      cases shift?_eq_some_iff.1 hshift with
      | number fits => exact absurd fits (hnumber _ _ ht)
      | opening room => exact absurd room (hopen _ ht)

theorem Completed.exists_eq (h : Completed outer here e goal s) :
    ∃ g f, s = ⟨outer, g, some f⟩ := by
  cases goal with
  | factor => exact ⟨here, e, h⟩
  | term =>
      obtain ⟨product, f, hs, -⟩ := h
      exact ⟨_, f, hs⟩
  | expression =>
      obtain ⟨g, f, hs, -⟩ := h
      exact ⟨g, f, hs⟩

/-- A part alone is a chain of one. -/
theorem Completed.of_part (hready : Ready goal here) (h : Completed outer here e goal.part s) :
    Completed outer here e goal s := by
  cases goal with
  | factor => exact h
  | term =>
      obtain ⟨sum, product⟩ := here
      obtain rfl : product = none := hready
      exact ⟨none, e, h, rfl⟩
  | expression =>
      obtain rfl : here = .empty := hready
      obtain ⟨product, f, hs, happly⟩ := h
      exact ⟨_, f, hs, happly⟩

theorem ready_extend (g : Group) (f : Expr) (op : Op) (l : Location) :
    Ready op.goal.part (g.extend f op l) := by
  cases op <;> trivial

/-- One more part is linked to those before it. -/
theorem Completed.link {g : Group} {f : Expr}
    (h : Completed outer here left op.goal ⟨outer, g, some f⟩)
    (hright : Completed outer (g.extend f op l) right op.goal.part u) :
    Completed outer here (.binary op left right l) op.goal u := by
  cases op with
  | mul | div =>
      obtain ⟨product, f', hs, rfl⟩ := h
      cases hs
      exact ⟨_, right, hright, rfl⟩
  | add | sub =>
      obtain ⟨g', f', hs, rfl⟩ := h
      cases hs
      obtain ⟨product, f'', rfl, rfl⟩ := hright
      exact ⟨_, f'', rfl, rfl⟩

theorem Completed.result?_eq (h : Completed [] .empty e goal s) : s.result? = some e := by
  cases goal with
  | factor =>
      obtain rfl : s = _ := h
      rfl
  | term =>
      obtain ⟨product, f, rfl, rfl⟩ := h
      rfl
  | expression =>
      obtain ⟨g, f, rfl, rfl⟩ := h
      rfl

theorem exists_of_result? (h : s.result? = some e) :
    (∃ f, s.operand = some f) ∧ s.outer = [] := by
  obtain ⟨outer, here, operand⟩ := s
  cases outer <;> cases operand <;> simp_all [result?]

/-- What it means for a call to stop in `s` before `t`. -/
def outcome (s : Reading) (t : Token) : Except ParseError Expr :=
  match s.result? with
  | some e => .ok e
  | none => .error (s.blame t)

theorem outcome_of_result? (h : s.result? = some e) (t : Token) : s.outcome t = .ok e := by
  rw [outcome, h]

theorem outcome_of_no_result? (h : s.result? = none) (t : Token) :
    s.outcome t = .error (s.blame t) := by
  rw [outcome, h]

theorem result?_no_operand (outer : List Group) (here : Group) :
    (Reading.mk outer here none).result? = none := by
  cases outer <;> rfl

theorem Ready.part (h : Ready goal here) : Ready goal.part here := by
  cases goal with
  | factor | term => trivial
  | expression =>
      obtain rfl : here = .empty := h
      rfl

/-- Most tokens are wrong only because another one is expected. -/
theorem blame_current {p : Parser} (h : s.operand = none →
    ∀ digits l, p.current ≠ ⟨.number digits, l⟩ ∧ p.current ≠ ⟨.openParen, l⟩) :
    s.blame p.current = p.unexpected s.expected := by
  obtain ⟨outer, here, operand⟩ := s
  unfold Parser.unexpected
  rcases hcurrent : p.current with ⟨x, l⟩
  cases operand with
  | some f => cases x <;> rfl
  | none =>
      cases x with
      | number digits => exact absurd hcurrent (h rfl digits l).1
      | openParen => exact absurd hcurrent (h rfl [] l).2
      | _ => rfl

end Reading

namespace Parser

open Reading

variable {top goal : Goal} {base : Nat} {outer : List Group} {here : Group} {s u : Reading}
  {p p' q : Parser} {left : Expr}

/-- What the machine, in state `s` when a call on `p` for `goal` began, has done when the call
answers. The goal belongs to a group `here` inside the groups `outer`. -/
inductive Follows (top : Goal) (base : Nat) (outer : List Group) (here : Group) (goal : Goal)
    (s : Reading) (p : Parser) : Except ParseError Expr × Parser → Prop
  | completes {e : Expr} {q : Parser} {u : Reading} (completed : Completed outer here e goal u)
      (taken : s.advance top base p.rest = u.advance top base q.rest)
      (finish : q.finish = p.finish) (depth : q.depth = p.depth) (ends : goal.Ends q.rest) :
      Follows top base outer here goal s p (.ok e, q)
  | stops {err : ParseError} {q : Parser} {u : Reading}
      (taken : s.advance top base p.rest = (u, q.rest)) (finish : q.finish = p.finish)
      (unfinished : u.result? = none) (blamed : err = u.blame q.current)
      (depth : q.depth = base + u.abandoned) :
      Follows top base outer here goal s p (.error err, q)

/-- The counter of `p` has all groups around, and outside of all groups `goal` takes no operator
that the whole call, for `top`, would not take. -/
structure Fits (top : Goal) (base : Nat) (outer : List Group) (goal : Goal) (p : Parser) :
    Prop where
  depth : p.depth = base + outer.length
  depth_le : p.depth ≤ ParseError.maxNesting
  admitted : outer = [] → ∀ op, goal.admits op = true → top.admits op = true

/-- An error of a part is one of the whole. -/
theorem Follows.of_error {here' : Group} {goal' : Goal} {err : ParseError} {outer' : List Group}
    (h : Follows top base outer' here' goal' u p (.error err, q))
    (htaken : s.advance top base p'.rest = u.advance top base p.rest)
    (hfinish : p.finish = p'.finish) :
    Follows top base outer here goal s p' (.error err, q) := by
  cases h with
  | stops taken finish unfinished blamed depth =>
      exact .stops (htaken.trans taken) (finish.trans hfinish) unfinished blamed depth

/-- A call may begin later, after tokens that the machine has taken. -/
theorem Follows.after {r : Except ParseError Expr × Parser}
    (h : Follows top base outer here goal u q r)
    (htaken : s.advance top base p.rest = u.advance top base q.rest)
    (hfinish : q.finish = p.finish) (hdepth : q.depth = p.depth) :
    Follows top base outer here goal s p r := by
  cases h with
  | completes completed taken finish depth ends =>
      exact .completes completed (htaken.trans taken) (finish.trans hfinish)
        (depth.trans hdepth) ends
  | stops taken finish unfinished blamed depth =>
      exact .stops (htaken.trans taken) (finish.trans hfinish) unfinished blamed depth

section Factors

variable {digits : List Char} {l : Location} {rest : List Token}

theorem factor_number (hrest : p.rest = ⟨.number digits, l⟩ :: rest)
    (fits : Nat.ofDigitChars 10 digits 0 ≤ Value.largest) :
    p.factor.1 = (.ok (.literal (.ofNat (Nat.ofDigitChars 10 digits 0)) l digits.length),
      { p with rest }) := by
  obtain ⟨ts, finish, depth⟩ := p
  obtain rfl : ts = _ := hrest
  rw [factor]
  simp only [if_pos fits]

theorem factor_outOfRange (hrest : p.rest = ⟨.number digits, l⟩ :: rest)
    (large : ¬ Nat.ofDigitChars 10 digits 0 ≤ Value.largest) :
    p.factor.1 = (.error (.literalOutOfRange digits l), p) := by
  obtain ⟨ts, finish, depth⟩ := p
  obtain rfl : ts = _ := hrest
  rw [factor]
  simp only [if_neg large]

theorem factor_tooDeep (hrest : p.rest = ⟨.openParen, l⟩ :: rest)
    (full : p.depth = ParseError.maxNesting) : p.factor.1 = (.error (.nestingTooDeep l), p) := by
  obtain ⟨ts, finish, depth⟩ := p
  obtain rfl : ts = _ := hrest
  rw [factor]
  simp only [if_pos full]

theorem factor_group (hrest : p.rest = ⟨.openParen, l⟩ :: rest)
    (room : p.depth ≠ ParseError.maxNesting) :
    p.factor.1 = ((descend .expression { p with rest, depth := p.depth + 1 }).andThen
      fun e q hq => (q.leave e).within hq).1 := by
  obtain ⟨ts, finish, depth⟩ := p
  obtain rfl : ts = _ := hrest
  rw [factor]
  simp only [if_neg room]
  rfl

theorem factor_unexpected
    (hnumber : ∀ digits l rest, p.rest ≠ ⟨.number digits, l⟩ :: rest)
    (hopen : ∀ l rest, p.rest ≠ ⟨.openParen, l⟩ :: rest) :
    p.factor.1 = (.error (p.unexpected .operand), p) := by
  rw [factor]
  split
  · exact absurd ‹_› (hnumber _ _ _)
  · exact absurd ‹_› (hopen _ _)
  · rfl

end Factors

section Chains

variable {e : Expr} {op : Op} {l : Location} {rest : List Token}

theorem leave_closed (hrest : p.rest = ⟨.closeParen, l⟩ :: rest) :
    (p.leave e).1 = (.ok e, ⟨rest, p.finish, p.depth - 1⟩) := by
  obtain ⟨ts, finish, depth⟩ := p
  obtain rfl : ts = _ := hrest
  rfl

theorem leave_unclosed (hclose : ∀ l rest, p.rest ≠ ⟨.closeParen, l⟩ :: rest) :
    (p.leave e).1 = (.error (unexpected { p with depth := p.depth - 1 } .closeParen),
      { p with depth := p.depth - 1 }) := by
  rw [leave]
  split
  · exact absurd ‹_› (hclose _ _)
  · rfl

theorem chain_operator (hrest : p.rest = ⟨.operator op, l⟩ :: rest) :
    (p.chain op.goal left).1 = ((descend op.goal.part { p with rest }).andThen
      fun right q hq => (q.chain op.goal (.binary op left right l)).within hq).1 := by
  obtain ⟨ts, finish, depth⟩ := p
  obtain rfl : ts = _ := hrest
  rw [chain]
  simp only [if_true]
  rfl

theorem chain_end (hop : ∀ op l rest, p.rest = ⟨.operator op, l⟩ :: rest → op.goal ≠ goal) :
    (p.chain goal left).1 = (.ok left, p) := by
  rw [chain]
  split
  · rw [if_neg (hop _ _ _ ‹_›)]
  · rfl

end Chains

theorem Reads.andThen_cases {r : Reads p}
    {next : Expr → (q : Parser) → q.rest.length ≤ p.rest.length → Reads p}
    {P : Except ParseError Expr × Parser → Prop}
    (hok : ∀ e q hq, r.1 = (.ok e, q) → P (next e q hq).1)
    (herror : ∀ err q, r.1 = (.error err, q) → P (.error err, q)) : P (r.andThen next).1 := by
  obtain ⟨⟨answer, q⟩, hq⟩ := r
  cases answer with
  | ok e => exact hok e q hq rfl
  | error err => exact herror err q rfl

theorem current_eq {t : Token} {rest : List Token} (hrest : p.rest = t :: rest) :
    p.current = t := by
  rw [current, hrest]
  rfl

theorem current_ne {x : Lexeme} {l : Location} (hx : x ≠ .endOfInput)
    (h : ∀ rest, p.rest ≠ ⟨x, l⟩ :: rest) : p.current ≠ ⟨x, l⟩ := by
  cases hrest : p.rest with
  | nil =>
      rw [current, hrest]
      exact fun heq => hx (congrArg Token.lexeme heq).symm
  | cons t rest =>
      rw [current_eq hrest]
      rintro rfl
      exact h rest hrest

/-- The machine follows the call for a factor from every state that awaits one. -/
def FactorFollowed (top : Goal) (base : Nat) (p : Parser) : Prop :=
  ∀ outer here, Fits top base outer .factor p →
    Follows top base outer here .factor ⟨outer, here, none⟩ p p.factor.1

/-- The machine follows the call for `goal` from every state in which `goal` may begin. -/
def DescentFollowed (top : Goal) (base : Nat) (goal : Goal) (p : Parser) : Prop :=
  ∀ outer here, Ready goal here → Fits top base outer goal p →
    Follows top base outer here goal ⟨outer, here, none⟩ p (p.descend goal).1

/-- The machine follows a chain from every state that has completed what is before it. -/
def ChainFollowed (top : Goal) (base : Nat) (goal : Goal) (left : Expr) (p : Parser) : Prop :=
  ∀ outer here s, Completed outer here left goal s → Fits top base outer goal p →
    goal.part.Ends p.rest → Follows top base outer here goal s p (p.chain goal left).1

theorem Fits.part (h : Fits top base outer goal p) : Fits top base outer goal.part p :=
  ⟨h.depth, h.depth_le, fun houter op hop => h.admitted houter op (Goal.admits_of_part hop)⟩

theorem Fits.of_depth_eq (h : Fits top base outer goal p) (hdepth : q.depth = p.depth) :
    Fits top base outer goal q :=
  ⟨hdepth.trans h.depth, hdepth ▸ h.depth_le, h.admitted⟩

section Factors

variable {digits : List Char} {l : Location} {rest : List Token}

/-- Where no factor begins, the machine is at its end too. -/
theorem Fits.stops {err : ParseError} (hfits : Fits top base outer .factor p) (here : Group)
    (hnumber : ∀ digits l, p.rest.head? = some ⟨.number digits, l⟩ →
      ¬ Nat.ofDigitChars 10 digits 0 ≤ Value.largest)
    (hopen : ∀ l, p.rest.head? = some ⟨.openParen, l⟩ → ¬ p.depth < ParseError.maxNesting)
    (hblame : err = (Reading.mk outer here none).blame p.current) :
    Follows top base outer here .factor ⟨outer, here, none⟩ p (.error err, p) := by
  rw [hfits.depth] at hopen
  exact .stops (advance_no_operand hnumber hopen) rfl (result?_no_operand outer here) hblame
    hfits.depth

theorem factorFollowed_number (hrest : p.rest = ⟨.number digits, l⟩ :: rest)
    (fits : Nat.ofDigitChars 10 digits 0 ≤ Value.largest) : FactorFollowed top base p := by
  intro outer here _
  rw [factor_number hrest fits]
  refine .completes rfl ?_ rfl rfl (Goal.ends_factor _)
  rw [hrest, advance_cons_of_some (Shift.number fits).shift?_eq]

theorem factorFollowed_outOfRange (hrest : p.rest = ⟨.number digits, l⟩ :: rest)
    (large : ¬ Nat.ofDigitChars 10 digits 0 ≤ Value.largest) : FactorFollowed top base p := by
  intro outer here hfits
  rw [factor_outOfRange hrest large]
  apply hfits.stops here
  · intro digits' l' h
    rw [hrest] at h
    cases h
    exact large
  · intro l' h
    rw [hrest] at h
    cases h
  · rw [current_eq hrest]
    rfl

theorem factorFollowed_tooDeep (hrest : p.rest = ⟨.openParen, l⟩ :: rest)
    (full : p.depth = ParseError.maxNesting) : FactorFollowed top base p := by
  intro outer here hfits
  rw [factor_tooDeep hrest full]
  apply hfits.stops here
  · intro digits l' h
    rw [hrest] at h
    cases h
  · intro l' _
    exact full ▸ Nat.lt_irrefl _
  · rw [current_eq hrest]
    rfl

theorem factorFollowed_unexpected
    (hnumber : ∀ digits l rest, p.rest ≠ ⟨.number digits, l⟩ :: rest)
    (hopen : ∀ l rest, p.rest ≠ ⟨.openParen, l⟩ :: rest) : FactorFollowed top base p := by
  intro outer here hfits
  rw [factor_unexpected hnumber hopen]
  apply hfits.stops here
  · intro digits l h
    obtain ⟨rest, hrest⟩ := List.head?_eq_some_iff.1 h
    exact absurd hrest (hnumber digits l rest)
  · intro l h
    obtain ⟨rest, hrest⟩ := List.head?_eq_some_iff.1 h
    exact absurd hrest (hopen l rest)
  · refine (blame_current (s := ⟨outer, here, none⟩) fun _ digits l => ⟨?_, ?_⟩).symm
    · exact current_ne (by simp) (hnumber digits l)
    · exact current_ne (by simp) (hopen l)

/-- The group is left before its parenthesis is asked for, so a missing one leaves the groups
around it only. -/
theorem leave_follows (outer : List Group) (here g : Group) (f : Expr)
    (hdepth : q.depth = base + outer.length + 1) (hends : Goal.expression.Ends q.rest) :
    Follows top base outer here .factor ⟨here :: outer, g, some f⟩
      { q with depth := q.depth - 1 } (q.leave (g.close f)).1 := by
  by_cases hclose : ∃ l rest, q.rest = ⟨.closeParen, l⟩ :: rest
  · obtain ⟨l, rest, hrest⟩ := hclose
    rw [leave_closed hrest]
    refine .completes rfl ?_ rfl rfl (Goal.ends_factor _)
    rw [hrest, advance_cons_of_some Shift.closing.shift?_eq]
  · have hclose' : ∀ l rest, q.rest ≠ ⟨.closeParen, l⟩ :: rest :=
      fun l rest hrest => hclose ⟨l, rest, hrest⟩
    rw [leave_unclosed hclose']
    -- The expression has ended, so there is no operator, and the group waits for nothing else.
    refine .stops (advance_operand ?_ ?_) rfl rfl
      (blame_current (s := ⟨here :: outer, g, some f⟩) (by simp)).symm ?_
    · intro op l h
      cases hends op l h
    · intro l h
      obtain ⟨rest, hrest⟩ := List.head?_eq_some_iff.1 h
      exact absurd hrest (hclose' l rest)
    · simp only [hdepth, abandoned, List.length_cons, Nat.add_sub_cancel]

/-- The group that the call opens is one more in the machine. -/
theorem factorFollowed_group (hrest : p.rest = ⟨.openParen, l⟩ :: rest)
    (room : p.depth ≠ ParseError.maxNesting)
    (ih : DescentFollowed top base .expression { p with rest, depth := p.depth + 1 }) :
    FactorFollowed top base p := by
  intro outer here hfits
  have hlt : p.depth < ParseError.maxNesting := Nat.lt_of_le_of_ne hfits.depth_le room
  have hopen : (Reading.mk outer here none).advance top base p.rest =
      (Reading.mk (here :: outer) .empty none).advance top base rest := by
    rw [hrest, advance_cons_of_some (Shift.opening (hfits.depth ▸ hlt)).shift?_eq]
  have hinside : Fits top base (here :: outer) .expression
      { p with rest, depth := p.depth + 1 } := by
    refine ⟨?_, hlt, by simp⟩
    simp only [hfits.depth, List.length_cons, Nat.add_assoc]
  have hfollows := ih (here :: outer) .empty rfl hinside
  rw [factor_group hrest room]
  apply Reads.andThen_cases
  · intro e q hq hok
    rw [hok] at hfollows
    cases hfollows with
    | completes completed taken finish depth ends =>
        obtain ⟨g, f, rfl, rfl⟩ := completed
        have hdepth : q.depth = base + outer.length + 1 := by rw [depth, hfits.depth]
        exact (leave_follows outer here g f hdepth ends).after (hopen.trans taken) finish
          (by rw [depth, Nat.add_sub_cancel])
  · intro err q herr
    rw [herr] at hfollows
    exact hfollows.of_error hopen rfl

end Factors

section Chains

variable {op : Op} {l : Location} {rest : List Token}

theorem descentFollowed_factor (ih : FactorFollowed top base p) :
    DescentFollowed top base .factor p := by
  intro outer here _ hfits
  rw [descend]
  exact ih outer here hfits

/-- A goal is its first part and the chain behind it. -/
theorem descentFollowed_chain
    (hgoal : (p.descend goal).1 = ((p.descend goal.part).andThen fun e q hq =>
      (q.chain goal e).within hq).1)
    (ihpart : DescentFollowed top base goal.part p)
    (ihchain : ∀ e (q : Parser), q.rest.length ≤ p.rest.length →
      ChainFollowed top base goal e q) : DescentFollowed top base goal p := by
  intro outer here hready hfits
  have hfollows := ihpart outer here hready.part hfits.part
  rw [hgoal]
  apply Reads.andThen_cases
  · intro e q hq hok
    rw [hok] at hfollows
    cases hfollows with
    | completes completed taken finish depth ends =>
        exact (ihchain e q hq outer here _ (completed.of_part hready) (hfits.of_depth_eq depth)
          ends).after taken finish depth
  · intro err q herr
    rw [herr] at hfollows
    exact hfollows.of_error rfl rfl

theorem chainFollowed_operator (hrest : p.rest = ⟨.operator op, l⟩ :: rest)
    (ihpart : DescentFollowed top base op.goal.part { p with rest })
    (ihchain : ∀ right (q : Parser), q.rest.length ≤ rest.length →
      ChainFollowed top base op.goal (.binary op left right l) q) :
    ChainFollowed top base op.goal left p := by
  intro outer here s hcompleted hfits _
  obtain ⟨g, f, rfl⟩ := hcompleted.exists_eq
  have hshift : (Reading.mk outer g (some f)).advance top base p.rest =
      (Reading.mk outer (g.extend f op l) none).advance top base rest := by
    rw [hrest, advance_cons_of_some
      (Shift.operator fun h => hfits.admitted h op (Goal.admits_goal op)).shift?_eq]
  have hbehind : Fits top base outer op.goal { p with rest } := hfits.of_depth_eq rfl
  have hfollows := ihpart outer (g.extend f op l) (ready_extend g f op l) hbehind.part
  rw [chain_operator hrest]
  apply Reads.andThen_cases
  · intro right q hq hok
    rw [hok] at hfollows
    cases hfollows with
    | completes completed taken finish depth ends =>
        exact (ihchain right q hq outer here _ (hcompleted.link completed)
          (hbehind.of_depth_eq depth) ends).after (hshift.trans taken) finish depth
  · intro err q herr
    rw [herr] at hfollows
    exact hfollows.of_error hshift rfl

theorem chainFollowed_end
    (hop : ∀ op l rest, p.rest = ⟨.operator op, l⟩ :: rest → op.goal ≠ goal) :
    ChainFollowed top base goal left p := by
  intro outer here s hcompleted _ hends
  rw [chain_end hop]
  refine .completes hcompleted rfl rfl rfl fun op l h => ?_
  obtain ⟨rest, hrest⟩ := List.head?_eq_some_iff.1 h
  exact Goal.admits_eq_false (hends op l h) (hop op l rest hrest)

end Chains

/-- The induction is that of the calls, one case for each way in which a call can go. -/
theorem descentFollowed (top : Goal) (base : Nat) (goal : Goal) (p : Parser) :
    DescentFollowed top base goal p := by
  have h := factor.mutual_induct (FactorFollowed top base) (DescentFollowed top base)
    (ChainFollowed top base)
    (fun p digits l rest hrest fits => factorFollowed_number hrest fits)
    (fun p digits l rest hrest large => factorFollowed_outOfRange hrest large)
    (fun p l rest hrest full => factorFollowed_tooDeep hrest full)
    (fun p l rest hrest room ih => factorFollowed_group hrest room ih)
    (fun p hnumber hopen => factorFollowed_unexpected hnumber hopen)
    (fun p ih => descentFollowed_factor ih)
    (fun p ihpart ihchain => descentFollowed_chain (by rw [descend]; rfl) ihpart ihchain)
    (fun p ihpart ihchain => descentFollowed_chain (by rw [descend]; rfl) ihpart ihchain)
    (fun left p op l rest hrest ihpart ihchain => chainFollowed_operator hrest ihpart ihchain)
    (fun goal left p op l rest hrest hop => chainFollowed_end fun op' l' rest' hrest' => by
      rw [hrest] at hrest'
      cases hrest'
      exact hop)
    (fun goal left p hop => chainFollowed_end fun op l rest hrest => (hop op l rest hrest).elim)
  exact h.2.1 goal p

/-- The parser that a call on `p` leaves when the machine has stopped in `s`, with the tokens
`left` to come. -/
def leaves (p : Parser) (s : Reading) (left : List Token) : Parser :=
  ⟨left, p.finish, p.depth + s.abandoned⟩

/-- The descent answers as the machine does. The groups that a failed call leaves counted are
those of the calls that were under way. -/
theorem read_eq {left : List Token} (hdepth : p.depth ≤ ParseError.maxNesting)
    (hadvance : Reading.start.advance goal p.depth p.rest = (s, left)) :
    p.read goal = (s.outcome (p.leaves s left).current, p.leaves s left) := by
  have hready : Ready goal .empty := by cases goal <;> trivial
  have hfollows := descentFollowed goal p.depth goal p [] .empty hready
    ⟨rfl, hdepth, fun _ _ hop => hop⟩
  unfold read
  generalize (p.descend goal).1 = r at hfollows ⊢
  -- Either way the machine has stopped: behind a complete goal it takes no token more.
  cases hfollows with
  | @completes e q u completed taken finish depth ends =>
      obtain ⟨g, f, rfl⟩ := completed.exists_eq
      have hstop : (Reading.mk [] g (some f)).advance goal p.depth q.rest =
          (⟨[], g, some f⟩, q.rest) :=
        advance_operand (fun op l h => ⟨rfl, ends op l h⟩) (fun _ _ => rfl)
      rw [← start, hadvance, hstop] at taken
      cases taken
      have hq : q = p.leaves ⟨[], g, some f⟩ q.rest := by
        rw [leaves, ← finish, ← depth]
        rfl
      rw [outcome_of_result? completed.result?_eq, ← hq]
  | @stops err q u taken finish unfinished blamed depth =>
      rw [← start, hadvance] at taken
      cases taken
      have hq : q = p.leaves s q.rest := by
        rw [leaves, ← finish, ← depth]
      rw [outcome_of_no_result? unfinished, ← hq, blamed]

/-- Tokens that go on after an expression are refused as the next token of it would be. -/
theorem parse_eq {left : List Token} (hdepth : p.depth ≤ ParseError.maxNesting)
    (hadvance : Reading.start.advance .expression p.depth p.rest = (s, left)) :
    p.parse = (s.verdict (p.leaves s left).current, p.leaves s left) := by
  rw [parse, read_eq hdepth hadvance]
  cases hs : s.result? with
  | none =>
      simp only [outcome_of_no_result? hs, verdict, hs]
      cases (p.leaves s left).current.lexeme <;> rfl
  | some e =>
      obtain ⟨⟨f, hf⟩, houter⟩ := exists_of_result? hs
      have hblame := blame_current (s := s) (p := p.leaves s left) (by simp [hf])
      have hexpected : s.expected = .continuation := by simp [expected, hf, houter]
      rw [hexpected] at hblame
      simp only [outcome_of_result? hs, ← hblame, verdict, hs]
      cases (p.leaves s left).current.lexeme <;> rfl

end Parser

/-- The state in which reading stops and the token it stops at decide the result. -/
theorem Parser.parse_eq_verdict (rest : List Token) (finish : Location) :
    (Parser.mk rest finish 0).parse.1 =
      (Reading.start.advance .expression 0 rest).1.verdict
        ((Reading.start.advance .expression 0 rest).2.headD ⟨.endOfInput, finish⟩) := by
  rw [parse_eq (Nat.zero_le _) rfl]
  rfl

theorem parse_eq_verdict_advance (source : String) :
    parse source =
      (Reading.start.advance .expression 0 (Cursor.ofString source).scan.tokens).1.verdict
        ((Reading.start.advance .expression 0 (Cursor.ofString source).scan.tokens).2.headD
          ⟨.endOfInput, (Cursor.ofString source).scan.finish⟩) :=
  Parser.parse_eq_verdict _ _

/-- Tokens that are taken one after another up to a token that is refused. -/
structure StopsAt (source : String) (taken : List Token) (s : Reading) (t : Token) : Prop where
  tokens : ∃ post, tokenize source = taken ++ t :: post
  run : Reading.start.run? .expression 0 taken = some s
  refused : s.shift? .expression 0 t = none

namespace StopsAt

/-- Reading always stops somewhere, at the end of the input if not before. -/
theorem exists_stopsAt (source : String) : ∃ taken s t, StopsAt source taken s t := by
  obtain ⟨taken, htokens, hrun, hstop⟩ := Reading.exists_run?_advance .expression 0 .start
    (Cursor.ofString source).scan.tokens
  rcases hadv : Reading.start.advance .expression 0 (Cursor.ofString source).scan.tokens with
    ⟨s, left⟩
  rw [hadv] at htokens hrun hstop
  cases left with
  | nil =>
      refine ⟨taken, s, ⟨.endOfInput, (Cursor.ofString source).scan.finish⟩, ⟨[], ?_⟩, hrun,
        s.shift?_endOfInput _⟩
      rw [tokenize_eq, htokens, List.append_nil]
  | cons t left =>
      refine ⟨taken, s, t, ⟨left ++ [⟨.endOfInput, (Cursor.ofString source).scan.finish⟩], ?_⟩,
        hrun, hstop t rfl⟩
      rw [tokenize_eq, htokens, List.append_assoc, List.cons_append]

theorem parse_eq {source : String} {taken : List Token} {s : Reading} {t : Token}
    (h : StopsAt source taken s t) : parse source = s.verdict t := by
  obtain ⟨post, htokens⟩ := h.tokens
  rw [parse_eq_verdict_advance]
  rw [tokenize_eq] at htokens
  -- The refused token is the end of the input or one of the tokens before it.
  rcases post.eq_nil_or_concat with rfl | ⟨post, u, rfl⟩
  · obtain ⟨hpre, hlast⟩ := List.append_inj' htokens rfl
    obtain rfl := (List.cons.inj hlast).1
    have := Reading.advance_of_run? h.run []
    rw [List.append_nil] at this
    rw [hpre, this]
    rfl
  · have hpre : (Cursor.ofString source).scan.tokens = taken ++ t :: post := by
      rw [List.concat_eq_append, ← List.cons_append, ← List.append_assoc] at htokens
      exact (List.append_inj' htokens rfl).1
    rw [hpre, Reading.advance_of_run? h.run, Reading.advance_cons_of_none h.refused]
    rfl

/-- Reading that stops at the end of the input has taken all tokens. -/
theorem taken_eq_of_endOfInput {source : String} {taken : List Token} {s : Reading} {t : Token}
    (h : StopsAt source taken s t) (ht : t.lexeme = .endOfInput) :
    taken = (tokenize source).dropLast := by
  obtain ⟨post, htokens⟩ := h.tokens
  rcases post.eq_nil_or_concat with rfl | ⟨post, u, rfl⟩
  · rw [htokens, List.dropLast_concat]
  · have hmem : t ∈ (Cursor.ofString source).scan.tokens := by
      rw [← dropLast_tokenize, htokens, List.concat_eq_append, ← List.cons_append,
        ← List.append_assoc, List.dropLast_concat]
      simp
    exact absurd ht (Cursor.lexeme_ne_endOfInput_of_mem hmem)

end StopsAt

end StepCalc
