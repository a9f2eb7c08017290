import StepCalc.Proofs.Expr.Bare
import StepCalc.Proofs.Grammar.EarliestError
import StepCalc.Proofs.Token.Spacing

/-!
# Layout does not matter

Reading looks at the lexeme of a token and carries its place along: every function of the
reader commutes with leaving the places out. So two texts with the same lexemes are read
alike but for places, and have the same value or fail alike. Blanks that divide no number
leave the lexemes as they are.
-/

namespace StepCalc

section Places

def Token.unplaced (t : Token) : Token :=
  ⟨t.lexeme, .start⟩

/-- The expression without its places; literals keep their widths. -/
def Expr.unplaced : Expr → Expr
  | literal v _ width => literal v .start width
  | binary op left right _ => binary op left.unplaced right.unplaced .start

def Pending.unplaced (p : Pending) : Pending :=
  ⟨p.operand.unplaced, p.op, .start⟩

def Group.unplaced (g : Group) : Group :=
  ⟨g.sum.map Pending.unplaced, g.product.map Pending.unplaced⟩

def Reading.unplaced (s : Reading) : Reading :=
  ⟨s.outer.map Group.unplaced, s.here.unplaced, s.operand.map Expr.unplaced⟩

def ParseError.unplaced : ParseError → ParseError
  | unexpectedCharacter c _ => unexpectedCharacter c .start
  | unexpectedToken expected found _ => unexpectedToken expected found .start
  | literalOutOfRange digits _ => literalOutOfRange digits .start
  | nestingTooDeep _ => nestingTooDeep .start

/-- What reading a text comes to, without places. -/
def unplacedReading (r : Except ParseError Expr) : Except ParseError Expr :=
  (r.map Expr.unplaced).mapError ParseError.unplaced

def Error.unplaced : Error → Error
  | parse e => parse e.unplaced
  | eval e => eval e.bare

theorem Expr.bare_unplaced (e : Expr) : e.unplaced.bare = e.bare := by
  induction e with
  | literal => rfl
  | binary op left right l ihl ihr => simp only [unplaced, bare, ihl, ihr]

end Places

theorem Pending.unplaced_apply (p : Option Pending) (e : Expr) :
    (Pending.apply p e).unplaced = Pending.apply (p.map Pending.unplaced) e.unplaced := by
  cases p <;> rfl

namespace Group

theorem unplaced_term (g : Group) (e : Expr) : (g.term e).unplaced = g.unplaced.term e.unplaced :=
  Pending.unplaced_apply g.product e

theorem unplaced_close (g : Group) (e : Expr) :
    (g.close e).unplaced = g.unplaced.close e.unplaced := by
  rw [close, Pending.unplaced_apply, unplaced_term]
  rfl

theorem unplaced_extend (g : Group) (e : Expr) (op : Op) (l : Location) :
    (g.extend e op l).unplaced = g.unplaced.extend e.unplaced op .start := by
  cases op <;> simp [extend, unplaced, Pending.unplaced, unplaced_close, unplaced_term]

end Group

namespace Reading

variable {goal : Goal} {base : Nat} {s s' : Reading} {t : Token}

theorem Shift.unplaced (h : Shift goal base s t s') :
    Shift goal base s.unplaced t.unplaced s'.unplaced := by
  cases h with
  | number fits => exact .number fits
  | opening room => exact .opening (by simpa using room)
  | operator admitted =>
      simp only [Reading.unplaced, Group.unplaced_extend]
      exact .operator fun houter => admitted (List.map_eq_nil_iff.1 houter)
  | closing =>
      simp only [Reading.unplaced, Option.map_some, Group.unplaced_close]
      exact .closing

theorem phase_unplaced (s : Reading) : s.unplaced.phase = s.phase := by
  simp [phase, Reading.unplaced]

theorem shift?_unplaced (goal : Goal) (base : Nat) (s : Reading) (t : Token) :
    s.unplaced.shift? goal base t.unplaced = (s.shift? goal base t).map Reading.unplaced := by
  cases hs : s.shift? goal base t with
  | some s' => exact (shift?_eq_some_iff.1 hs).unplaced.shift?_eq
  | none =>
      cases hu : s.unplaced.shift? goal base t.unplaced with
      | none => rfl
      | some u =>
          -- whether a token is taken depends on the phase and the lexeme, and both are the same
          have hshift : Shift goal base s.unplaced t.unplaced u := shift?_eq_some_iff.1 hu
          have hlexeme : t.unplaced.lexeme = t.lexeme := rfl
          obtain ⟨u', hu', -⟩ := hshift.exists_of_phase_eq s.phase_unplaced hlexeme
          rw [hu'.shift?_eq] at hs
          cases hs

theorem advance_unplaced (goal : Goal) (base : Nat) (s : Reading) (ts : List Token) :
    s.unplaced.advance goal base (ts.map Token.unplaced) =
      ((s.advance goal base ts).1.unplaced,
        (s.advance goal base ts).2.map Token.unplaced) := by
  induction ts generalizing s with
  | nil => rfl
  | cons t ts ih =>
      have hshift := shift?_unplaced goal base s t
      cases hs : s.shift? goal base t with
      | none =>
          rw [hs] at hshift
          rw [List.map_cons, advance_cons_of_none hs, advance_cons_of_none hshift, List.map_cons]
      | some s' =>
          rw [hs] at hshift
          rw [List.map_cons, advance_cons_of_some hs, advance_cons_of_some hshift, ih s']

theorem result?_unplaced (s : Reading) : s.unplaced.result? = s.result?.map Expr.unplaced := by
  obtain ⟨outer, here, operand⟩ := s
  cases outer <;> cases operand <;> simp [Reading.unplaced, result?, Group.unplaced_close]

theorem blame_unplaced (s : Reading) (t : Token) :
    s.unplaced.blame t.unplaced = (s.blame t).unplaced := by
  obtain ⟨outer, here, operand⟩ := s
  obtain ⟨x, l⟩ := t
  cases outer <;> cases operand <;> cases x <;> rfl

theorem verdict_unplaced (s : Reading) (t : Token) :
    s.unplaced.verdict t.unplaced = unplacedReading (s.verdict t) := by
  cases hv : s.verdict t with
  | ok e =>
      obtain ⟨ht, hs⟩ := verdict_eq_ok_iff.1 hv
      apply verdict_eq_ok_iff.2
      exact ⟨ht, by rw [result?_unplaced, hs]; rfl⟩
  | error err =>
      obtain ⟨rfl, hnone⟩ := verdict_eq_error hv
      cases hu : s.unplaced.verdict t.unplaced with
      | ok e =>
          obtain ⟨ht, hs⟩ := verdict_eq_ok_iff.1 hu
          rw [result?_unplaced, hnone ht] at hs
          cases hs
      | error err =>
          rw [(verdict_eq_error hu).1, blame_unplaced]
          rfl

end Reading

section Texts

/-- A text is read, but for places, as its lexemes are. -/
theorem unplacedReading_parse (source : String) :
    unplacedReading (parse source) =
      (Parser.mk ((lexemes source.toList).map (Token.mk · .start)) .start 0).parse.1 := by
  have htokens : (lexemes source.toList).map (Token.mk · .start) =
      (Cursor.ofString source).scan.tokens.map Token.unplaced := by
    rw [← map_lexeme_dropLast_tokenize, dropLast_tokenize, List.map_map]
    rfl
  have hadvance :=
    Reading.advance_unplaced .expression 0 .start (Cursor.ofString source).scan.tokens
  rw [show Reading.start.unplaced = .start from rfl] at hadvance
  rw [htokens, Parser.parse_eq_verdict, parse_eq_verdict_advance, hadvance,
    ← Reading.verdict_unplaced]
  congr 1
  cases (Reading.start.advance .expression 0 (Cursor.ofString source).scan.tokens).2 <;> rfl

/-- Of the places in what has been read, evaluation only keeps that of a failure. -/
theorem mapError_evaluate (source : String) :
    (evaluate source).mapError Error.unplaced =
      match unplacedReading (parse source) with
      | .ok e => (e.eval.mapError EvalError.bare).mapError .eval
      | .error err => .error (.parse err) := by
  unfold evaluate
  cases parse source with
  | error err => rfl
  | ok e =>
      have heval : e.unplaced.eval.mapError EvalError.bare = e.eval.mapError EvalError.bare :=
        Expr.evalsAs_of_bare_eq e.bare_unplaced
      change (e.eval.mapError Error.eval).mapError Error.unplaced =
        (e.unplaced.eval.mapError EvalError.bare).mapError Error.eval
      rw [heval]
      cases e.eval <;> rfl

/-- The texts are read alike and evaluate alike, but for places. -/
structure Alike (source source' : String) : Prop where
  reading : unplacedReading (parse source) = unplacedReading (parse source')
  value : (evaluate source).mapError Error.unplaced = (evaluate source').mapError Error.unplaced

theorem SameTokens.alike {source source' : String} (h : SameTokens source source') :
    Alike source source' := by
  have hreading : unplacedReading (parse source) = unplacedReading (parse source') := by
    rw [unplacedReading_parse, unplacedReading_parse, sameTokens_iff.1 h]
  exact ⟨hreading, by rw [mapError_evaluate, mapError_evaluate, hreading]⟩

theorem sameTokens_insert_blanks {a b w : String} (h : ReadsAs.Apart a.toList b.toList)
    (hw : ∀ c ∈ w.toList, Text.isBlank c = true) : SameTokens (a ++ b) (a ++ w ++ b) := by
  rw [sameTokens_iff]
  simp only [String.toList_append]
  exact (lexemes_insert_blanks h hw).symm

/-- Layout never matters. Texts with the same tokens apart from places are read alike and
evaluate alike, and blanks that do not divide a run of digits leave the tokens as they are. -/
theorem layout_never_matters :
    (∀ source source', SameTokens source source' → Alike source source') ∧
      ∀ a b w : String, ReadsAs.Apart a.toList b.toList →
        (∀ c ∈ w.toList, Text.isBlank c = true) →
        SameTokens (a ++ b) (a ++ w ++ b) ∧ Alike (a ++ b) (a ++ w ++ b) := by
  refine ⟨fun _ _ h => h.alike, fun a b w h hw => ?_⟩
  have htokens := sameTokens_insert_blanks h hw
  exact ⟨htokens, htokens.alike⟩

/-- A line break in front of the operator moves the failure to the next line, and does
nothing else. -/
theorem layout_never_matters_lineBreak :
    evaluate "8/0" = .error (.eval (.divisionByZero ⟨1, 1, 2⟩)) ∧
      evaluate "8\n /0" = .error (.eval (.divisionByZero ⟨3, 2, 2⟩)) ∧
      SameTokens "8/0" "8\n /0" ∧ Alike "8/0" "8\n /0" := by
  have hscan : (Cursor.ofString "8/0").scan =
      ⟨[⟨.number ['8'], ⟨0, 1, 1⟩⟩, ⟨.operator .div, ⟨1, 1, 2⟩⟩, ⟨.number ['0'], ⟨2, 1, 3⟩⟩],
        ⟨3, 1, 4⟩⟩ := by
    decide +kernel
  have hscan' : (Cursor.ofString "8\n /0").scan =
      ⟨[⟨.number ['8'], ⟨0, 1, 1⟩⟩, ⟨.operator .div, ⟨3, 2, 2⟩⟩, ⟨.number ['0'], ⟨4, 2, 3⟩⟩],
        ⟨5, 2, 4⟩⟩ := by
    decide +kernel
  have happart : ReadsAs.Apart "8".toList "/0".toList := by simp [ReadsAs.Apart]
  have hblank : ∀ c ∈ "\n ".toList, Text.isBlank c = true := by simp; decide
  refine ⟨?_, ?_, layout_never_matters.2 "8" "/0" "\n " happart hblank⟩
  · rw [evaluate, parse_eq_verdict_advance, hscan]
    rfl
  · rw [evaluate, parse_eq_verdict_advance, hscan']
    rfl

end Texts

end StepCalc
