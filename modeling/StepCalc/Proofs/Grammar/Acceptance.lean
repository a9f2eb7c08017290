import StepCalc.Proofs.Grammar.Derivation
import StepCalc.Proofs.Grammar.Descent

/-!
# The parser accepts its grammar

Completeness follows a derivation from left to right: reading a word of a goal
either completes it or stops at an opening parenthesis for which there is no room
(`Derives.reads`). Soundness keeps a record of the tokens taken: at every moment
they are the words of what the state holds (`Reading.Spells`).
-/

namespace StepCalc

namespace Reading

/-- The tokens `ts` are taken up to an opening parenthesis that exceeds the nesting limit. -/
def Overflows (s : Reading) (ts : List Token) : Prop :=
  ∃ pre l post u, ts = pre ++ ⟨.openParen, l⟩ :: post ∧ s.run? .expression 0 pre = some u ∧
    u.operand = none ∧ ParseError.maxNesting ≤ u.outer.length

theorem Overflows.append_right {s : Reading} {ts : List Token} (h : s.Overflows ts)
    (us : List Token) : s.Overflows (ts ++ us) := by
  obtain ⟨pre, l, post, u, rfl, hrun, hu⟩ := h
  exact ⟨pre, l, post ++ us, u, by simp, hrun, hu⟩

theorem Overflows.append_left {s u : Reading} {ts us : List Token}
    (hrun : s.run? .expression 0 ts = some u) (h : u.Overflows us) : s.Overflows (ts ++ us) := by
  obtain ⟨pre, l, post, v, rfl, hv, hstop⟩ := h
  exact ⟨ts ++ pre, l, post, v, by simp, run?_append_eq_some_iff.2 ⟨u, hrun, hv⟩, hstop⟩

theorem Overflows.shift {s u : Reading} {t : Token} {ts : List Token}
    (ht : Shift .expression 0 s t u) (h : u.Overflows ts) : s.Overflows (t :: ts) :=
  Overflows.append_left (run?_cons_eq_some_iff.2 ⟨u, ht, run?_nil u⟩) h

end Reading

/-- Every number is at most the largest value. -/
def InRange (ts : List Token) : Prop :=
  ∀ t ∈ ts, ∀ digits, t.lexeme = .number digits → Nat.ofDigitChars 10 digits 0 ≤ Value.largest

@[simp] theorem inRange_nil : InRange [] := by
  simp [InRange]

@[simp] theorem inRange_append {ts us : List Token} :
    InRange (ts ++ us) ↔ InRange ts ∧ InRange us := by
  simp [InRange, or_imp, forall_and]

@[simp] theorem inRange_cons {t : Token} {ts : List Token} :
    InRange (t :: ts) ↔
      (∀ digits, t.lexeme = .number digits → Nat.ofDigitChars 10 digits 0 ≤ Value.largest) ∧
        InRange ts := by
  simp [InRange]

theorem inRange_number {digits : List Char} {l : Location} :
    InRange [⟨.number digits, l⟩] ↔ Nat.ofDigitChars 10 digits 0 ≤ Value.largest := by
  simp

theorem inRange_parenthesized {ts : List Token} {l r : Location} :
    InRange (⟨.openParen, l⟩ :: (ts ++ [⟨.closeParen, r⟩])) ↔ InRange ts := by
  simp

theorem inRange_operation {ts us : List Token} {op : Op} {l : Location} :
    InRange (ts ++ ⟨.operator op, l⟩ :: us) ↔ InRange ts ∧ InRange us := by
  simp

open Reading in
/-- Reading a word completes its goal unless the word nests too deep. -/
theorem Derives.reads {goal : Goal} {ts : List Token} {e : Expr} (h : Derives goal ts e)
    (hts : InRange ts) {here : Group} (ready : Ready goal here) (outer : List Group) :
    (∃ s, (Reading.mk outer here none).run? .expression 0 ts = some s ∧
      Completed outer here e goal s) ∨ (Reading.mk outer here none).Overflows ts := by
  induction h using Derives.leftRec generalizing here outer with
  | number digits l =>
      have fits := inRange_number.1 hts
      exact .inl ⟨_, run?_cons_eq_some_iff.2 ⟨_, .number fits, rfl⟩, rfl⟩
  | @group body e l r inside ih =>
      by_cases room : 0 + outer.length < ParseError.maxNesting
      · have hopen : Shift .expression 0 ⟨outer, here, none⟩ ⟨.openParen, l⟩
            ⟨here :: outer, .empty, none⟩ := .opening room
        have hbody : InRange body := inRange_parenthesized.1 hts
        rcases ih hbody rfl (here :: outer) with ⟨_, hrun, inner, f, rfl, hclose⟩ | hover
        · refine .inl ⟨⟨outer, here, some e⟩, ?_, rfl⟩
          refine run?_cons_eq_some_iff.2 ⟨_, hopen, run?_append_eq_some_iff.2 ⟨_, hrun, ?_⟩⟩
          exact run?_cons_eq_some_iff.2 ⟨_, .closing, by rw [hclose]; rfl⟩
        · exact .inr (.shift hopen (hover.append_right _))
      · have full : ParseError.maxNesting ≤ outer.length := by omega
        exact .inr ⟨[], l, _, _, rfl, rfl, rfl, full⟩
  | ofFactor h ih =>
      rcases ih hts trivial outer with ⟨s, hrun, hs⟩ | hover
      · refine .inl ⟨s, hrun, none, _, ?_, rfl⟩
        rw [hs, ← show here.product = none from ready]
      · exact .inr hover
  | @product ts us e f op l left level right ihl ihr =>
      obtain ⟨hts, hus⟩ := inRange_operation.1 hts
      rcases ihl hts ready outer with ⟨_, hrun, product, g, rfl, happly⟩ | hover
      · have hop : Shift .expression 0 ⟨outer, ⟨here.sum, product⟩, some g⟩ ⟨.operator op, l⟩
            ⟨outer, ⟨here.sum, some ⟨e, op, l⟩⟩, none⟩ := by
          rcases level with rfl | rfl <;> rw [← happly] <;> exact .operator fun _ => rfl
        rcases ihr hus trivial outer with ⟨_, hrun', rfl⟩ | hover
        · refine .inl ⟨_, run?_append_eq_some_iff.2 ⟨_, hrun,
            run?_cons_eq_some_iff.2 ⟨_, hop, hrun'⟩⟩, some ⟨e, op, l⟩, f, rfl, rfl⟩
        · exact .inr (.append_left hrun (.shift hop hover))
      · exact .inr (hover.append_right _)
  | ofTerm h ih =>
      obtain rfl : here = .empty := ready
      have hready : Ready .term .empty := rfl
      rcases ih hts hready outer with ⟨s, hrun, product, f, hs, happly⟩ | hover
      · exact .inl ⟨s, hrun, _, f, hs, happly⟩
      · exact .inr hover
  | @sum ts us e f op l left level right ihl ihr =>
      obtain ⟨hts, hus⟩ := inRange_operation.1 hts
      rcases ihl hts ready outer with ⟨_, hrun, inner, g, rfl, hclose⟩ | hover
      · have hop : Shift .expression 0 ⟨outer, inner, some g⟩ ⟨.operator op, l⟩
            ⟨outer, ⟨some ⟨e, op, l⟩, none⟩, none⟩ := by
          rcases level with rfl | rfl <;> rw [← hclose] <;> exact .operator fun _ => rfl
        have hready : Ready .term ⟨some ⟨e, op, l⟩, none⟩ := rfl
        rcases ihr hus hready outer with ⟨_, hrun', product, k, rfl, happly⟩ | hover
        · refine .inl ⟨_, run?_append_eq_some_iff.2 ⟨_, hrun,
            run?_cons_eq_some_iff.2 ⟨_, hop, hrun'⟩⟩, _, k, rfl, ?_⟩
          rw [← happly]
          rfl
        · exact .inr (.append_left hrun (.shift hop hover))
      · exact .inr (hover.append_right _)

section Soundness

/-- The word of a waiting operand with its operator, a word of `goal` and an
operator of its `level`; nothing if no operand waits. -/
inductive Pending.Spells (goal : Goal) (level : Op → Prop) : Option Pending → List Token → Prop
  | idle : Spells goal level none []
  | waiting {word : List Token} {e : Expr} {op : Op} (l : Location) (left : Derives goal word e)
      (hop : level op) : Spells goal level (some ⟨e, op, l⟩) (word ++ [⟨.operator op, l⟩])

/-- The tokens of an open group so far, up to its last operator. -/
inductive Group.Spells : Group → List Token → Prop
  | intro {g : Group} {us vs : List Token}
      (sum : Pending.Spells .expression (fun op => op = .add ∨ op = .sub) g.sum us)
      (product : Pending.Spells .term (fun op => op = .mul ∨ op = .div) g.product vs) :
      Spells g (us ++ vs)

namespace Group

theorem spells_empty : empty.Spells [] := by
  change empty.Spells ([] ++ [])
  exact .intro .idle .idle

namespace Spells

theorem term {g : Group} {us vs : List Token}
    (product : Pending.Spells .term (fun op => op = .mul ∨ op = .div) g.product us) {e : Expr}
    (he : Derives .factor vs e) : Derives .term (us ++ vs) (g.term e) := by
  obtain ⟨sum, product⟩ := g
  cases product with
  | idle => exact he.ofFactor
  | waiting l left hop => simpa [Group.term, Pending.apply] using left.product l hop he

theorem close {g : Group} {us vs : List Token} (h : g.Spells us) {e : Expr}
    (he : Derives .factor vs e) : Derives .expression (us ++ vs) (g.close e) := by
  obtain ⟨hsum, hproduct⟩ := h
  have hterm := term hproduct he
  obtain ⟨sum, product⟩ := g
  cases hsum with
  | idle => exact hterm.ofTerm
  | waiting l left hop => simpa [Group.close, Pending.apply] using left.sum l hop hterm

theorem extend {g : Group} {us vs : List Token} (h : g.Spells us) {e : Expr}
    (he : Derives .factor vs e) (op : Op) (l : Location) :
    (g.extend e op l).Spells (us ++ vs ++ [⟨.operator op, l⟩]) := by
  have hclose := h.close he
  obtain ⟨hsum, hproduct⟩ := h
  have hterm := term hproduct he
  cases op with
  | add => simpa using intro (g := g.extend e .add l) (.waiting l hclose (.inl rfl)) .idle
  | sub => simpa using intro (g := g.extend e .sub l) (.waiting l hclose (.inr rfl)) .idle
  | mul => simpa using intro (g := g.extend e .mul l) hsum (.waiting l hterm (.inl rfl))
  | div => simpa using intro (g := g.extend e .div l) hsum (.waiting l hterm (.inr rfl))

end Spells

end Group

namespace Reading

/-- The tokens of the groups around the current one, innermost group first, each
with the parenthesis that opens the next. -/
inductive SpellsOuter : List Group → List Token → Prop
  | nil : SpellsOuter [] []
  | cons {g : Group} {outer : List Group} {us vs : List Token} (l : Location)
      (outside : SpellsOuter outer us) (inside : g.Spells vs) :
      SpellsOuter (g :: outer) (us ++ (vs ++ [⟨.openParen, l⟩]))

/-- The tokens that lead to a state. -/
inductive Spells : Reading → List Token → Prop
  | between {outer : List Group} {here : Group} {us vs : List Token}
      (outside : SpellsOuter outer us) (inside : here.Spells vs) :
      Spells ⟨outer, here, none⟩ (us ++ vs)
  | after {outer : List Group} {here : Group} {e : Expr} {us vs ws : List Token}
      (outside : SpellsOuter outer us) (inside : here.Spells vs) (operand : Derives .factor ws e) :
      Spells ⟨outer, here, some e⟩ (us ++ (vs ++ ws))

theorem spells_start : start.Spells [] := by
  change start.Spells ([] ++ [])
  exact .between .nil Group.spells_empty

variable {s s' : Reading} {ts us : List Token}

theorem Spells.shift {t : Token} (h : s.Spells ts) (ht : Shift .expression 0 s t s') :
    s'.Spells (ts ++ [t]) := by
  cases ht with
  | @number outer here digits l fits =>
      cases h with
      | between outside inside =>
          simpa using after outside inside (.number digits l)
  | @opening outer here l room =>
      cases h with
      | between outside inside =>
          simpa using between (.cons l outside inside) Group.spells_empty
  | @operator outer here e op l admitted =>
      cases h with
      | after outside inside operand =>
          simpa using between outside (inside.extend operand op l)
  | @closing g outer here e l =>
      cases h with
      | after outside inside operand =>
          cases outside with
          | cons k outside around =>
              simpa using after outside around (.group k l (inside.close operand))

theorem Spells.run (h : s.Spells ts) (hrun : s.run? .expression 0 us = some s') :
    s'.Spells (ts ++ us) := by
  induction us generalizing s ts with
  | nil =>
      obtain rfl := Option.some.inj hrun
      simpa using h
  | cons t us ih =>
      obtain ⟨u, hu, hrun⟩ := run?_cons_eq_some_iff.1 hrun
      simpa using ih (h.shift hu) hrun

theorem Spells.result {e : Expr} (h : s.Spells ts) (he : s.result? = some e) :
    Derives .expression ts e := by
  cases h with
  | between outside inside => simp [result?] at he
  | after outside inside operand =>
      cases outside with
      | cons l outside around => simp [result?] at he
      | nil =>
          obtain rfl := Option.some.inj he
          simpa using inside.close operand

/-- A run takes no number that is out of range. -/
theorem inRange_of_run? (h : s.run? .expression 0 ts = some s') : InRange ts := by
  induction ts generalizing s with
  | nil => exact inRange_nil
  | cons t ts ih =>
      obtain ⟨u, hu, hrun⟩ := run?_cons_eq_some_iff.1 h
      refine inRange_cons.2 ⟨?_, ih hrun⟩
      intro digits hx
      cases hu with
      | number fits => exact (Lexeme.number.inj hx) ▸ fits
      | _ => cases hx

variable {goal : Goal} {base : Nat}

theorem Shift.length_outer {t : Token} (h : Shift goal base s t s') :
    (s'.outer.length : Int) = s.outer.length + t.lexeme.balance := by
  cases h with
  | closing => simp only [List.length_cons, Lexeme.balance]; omega
  | _ => simp [Lexeme.balance]

theorem length_outer_of_run? (h : s.run? goal base ts = some s') :
    (s'.outer.length : Int) = s.outer.length + balance (ts.map Token.lexeme) := by
  induction ts generalizing s with
  | nil =>
      obtain rfl := Option.some.inj h
      simp
  | cons t ts ih =>
      obtain ⟨u, hu, hrun⟩ := run?_cons_eq_some_iff.1 h
      rw [ih hrun, hu.length_outer, List.map_cons, balance_cons]
      omega

/-- A run never opens more groups than the limit allows. -/
theorem nesting_le_of_run? (h : s.run? goal base ts = some s')
    (hs : base + s.outer.length ≤ ParseError.maxNesting) :
    base + s.outer.length + nesting (ts.map Token.lexeme) ≤ ParseError.maxNesting := by
  induction ts generalizing s with
  | nil => simpa using Int.ofNat_le.2 hs
  | cons t ts ih =>
      obtain ⟨u, hu, hrun⟩ := run?_cons_eq_some_iff.1 h
      have hlen := hu.length_outer
      have hroom : base + u.outer.length ≤ ParseError.maxNesting := by
        cases hu with
        | opening room => simp only [List.length_cons]; omega
        | closing => exact Nat.le_of_succ_le hs
        | _ => exact hs
      have := ih hrun hroom
      simp only [List.map_cons, nesting]
      omega

end Reading

end Soundness

/-- Groups are opened only while fewer than `limit` are open. -/
def NestsWithin (limit : Nat) (ts : List Token) : Prop :=
  ∀ pre t post, ts = pre ++ t :: post → t.lexeme = .openParen →
    balance (pre.map Token.lexeme) < limit

theorem nestsWithin_iff {limit : Nat} {ts : List Token} :
    NestsWithin limit ts ↔ nesting (ts.map Token.lexeme) ≤ limit := by
  rw [nesting_le_iff (Int.natCast_nonneg limit)]
  constructor
  · intro h pre post hts
    obtain ⟨ps, qs, rfl, rfl, hqs⟩ := List.map_eq_append_iff.1 hts
    obtain ⟨t, rest, rfl, ht, -⟩ := List.map_eq_cons_iff.1 hqs
    exact h ps t rest rfl ht
  · rintro h pre t post rfl ht
    exact h (pre.map Token.lexeme) (post.map Token.lexeme) (by simp [ht])

/-- Reading a word whose numbers are in range can only fail for its nesting. -/
theorem Derives.parse_tokens {ts : List Token} {e : Expr} (h : Derives .expression ts e)
    (hnum : InRange ts) (finish : Location) :
    (NestsWithin 256 ts ∧ (Parser.mk ts finish 0).parse.1 = .ok e) ∨
      (¬ NestsWithin 256 ts ∧
        ∃ l, (Parser.mk ts finish 0).parse.1 = .error (.nestingTooDeep l)) := by
  have hready : Reading.Ready .expression .empty := rfl
  rw [Parser.parse_eq_verdict ts finish,
    show Reading.start = ⟨[], .empty, none⟩ from rfl]
  rcases h.reads hnum hready [] with
    ⟨_, hrun, here, f, rfl, hclose⟩ | ⟨pre, l, post, u, rfl, hrun, hu, hfull⟩
  · have hadvance := Reading.advance_of_run? hrun []
    rw [List.append_nil] at hadvance
    refine .inl ⟨nestsWithin_iff.2 ?_, ?_⟩
    · simpa [ParseError.maxNesting] using Reading.nesting_le_of_run? hrun (by simp)
    · rw [hadvance]
      exact Reading.verdict_eq_ok_iff.2 ⟨rfl, congrArg some hclose⟩
  · have hrefused : u.shift? .expression 0 ⟨.openParen, l⟩ = none := by
      simp [Reading.shift?, hu, hfull]
    refine .inr ⟨fun hnest => ?_, l, ?_⟩
    · have hlt := hnest pre _ post rfl rfl
      have hlen := Reading.length_outer_of_run? hrun
      simp only [List.length_nil, ParseError.maxNesting] at hlen hfull
      omega
    · rw [Reading.advance_of_run? hrun, Reading.advance_cons_of_none hrefused]
      simp [Reading.verdict, Reading.blame, hu]

/-- A source text spells `e`: its tokens form an expression with the tree `e`, its
numbers are in range, and its groups are not nested too deep. -/
structure Spells (source : String) (e : Expr) : Prop where
  derivation : Derives .expression (tokenize source).dropLast e
  numbers : InRange (tokenize source).dropLast
  nesting : NestsWithin 256 (tokenize source).dropLast

theorem Derives.parse_eq {source : String} {e : Expr}
    (h : Derives .expression (tokenize source).dropLast e)
    (hnum : InRange (tokenize source).dropLast) :
    (NestsWithin 256 (tokenize source).dropLast ∧ parse source = .ok e) ∨
      (¬ NestsWithin 256 (tokenize source).dropLast ∧
        ∃ l, parse source = .error (.nestingTooDeep l)) := by
  rw [dropLast_tokenize] at h hnum ⊢
  exact h.parse_tokens hnum (Cursor.ofString source).scan.finish

theorem Spells.parse_eq {source : String} {e : Expr} (h : Spells source e) :
    parse source = .ok e := by
  rcases h.derivation.parse_eq h.numbers with ⟨-, heq⟩ | ⟨hdeep, -⟩
  · exact heq
  · exact absurd h.nesting hdeep

theorem spells_of_parse_eq {source : String} {e : Expr} (h : parse source = .ok e) :
    Spells source e := by
  obtain ⟨taken, s, t, hstop⟩ := StopsAt.exists_stopsAt source
  rw [hstop.parse_eq] at h
  obtain ⟨ht, hs⟩ := Reading.verdict_eq_ok_iff.1 h
  have htaken : taken = (tokenize source).dropLast := hstop.taken_eq_of_endOfInput ht
  have hspells := Reading.spells_start.run hstop.run
  refine ⟨?_, ?_, nestsWithin_iff.2 ?_⟩
  · rw [← htaken]
    exact hspells.result hs
  · rw [← htaken]
    exact Reading.inRange_of_run? hstop.run
  · rw [← htaken]
    have := Reading.nesting_le_of_run? hstop.run (by simp [Reading.start])
    simpa [Reading.start, ParseError.maxNesting] using this

/-- The parser accepts exactly the texts of the grammar, with exactly their trees;
no text has two. -/
theorem parse_eq_ok_iff_spells (source : String) :
    (∀ e, parse source = .ok e ↔ Spells source e) ∧
      ∀ e e', Spells source e → Spells source e' → e = e' := by
  constructor
  · intro e
    exact ⟨spells_of_parse_eq, Spells.parse_eq⟩
  · intro e e' h h'
    exact Except.ok.inj (h.parse_eq.symm.trans h'.parse_eq)

/-- A number with a leading zero in a group. -/
theorem parse_eq_ok_iff_spells_grouped :
    Spells "2*(3+04)" (.binary .mul (.literal 2 ⟨0, 1, 1⟩ 1)
      (.binary .add (.literal 3 ⟨3, 1, 4⟩ 1) (.literal 4 ⟨5, 1, 6⟩ 2) ⟨4, 1, 5⟩) ⟨1, 1, 2⟩) := by
  have hscan : (Cursor.ofString "2*(3+04)").scan =
      ⟨[⟨.number ['2'], ⟨0, 1, 1⟩⟩, ⟨.operator .mul, ⟨1, 1, 2⟩⟩, ⟨.openParen, ⟨2, 1, 3⟩⟩,
        ⟨.number ['3'], ⟨3, 1, 4⟩⟩, ⟨.operator .add, ⟨4, 1, 5⟩⟩, ⟨.number ['0', '4'], ⟨5, 1, 6⟩⟩,
        ⟨.closeParen, ⟨7, 1, 8⟩⟩], ⟨8, 1, 9⟩⟩ := by
    decide +kernel
  refine ((parse_eq_ok_iff_spells "2*(3+04)").1 _).1 ?_
  rw [parse_eq_verdict_advance, hscan]
  rfl

end StepCalc
