import StepCalc.Proofs.Expr.Operators

/-!
# Exact arithmetic

`Expr.Denotes` gives an expression its meaning over the unbounded integers, where a
quotient drops its fraction. Evaluation finds this integer as long as it and the
integers of all operators have 64 bits. Otherwise it fails as the first operator
does that leads from integers of 64 bits to something else.
-/

namespace StepCalc

namespace Value

/-- `n` is an integer of 64 bits. -/
def Fits (n : Int) : Prop :=
  -0x8000000000000000 ≤ n ∧ n ≤ 0x7fffffffffffffff

theorem fits_toInt (v : Value) : Fits v.toInt := by
  have hle := v.le_toInt
  have hlt := v.toInt_lt
  unfold Fits
  omega

theorem ofInt?_eq_none_iff_not_fits {n : Int} : ofInt? n = none ↔ ¬ Fits n := by
  rw [ofInt?_eq_none_iff]
  unfold Fits largest
  omega

theorem exists_toInt_eq {n : Int} (h : Fits n) : ∃ v : Value, v.toInt = n := by
  cases hv : ofInt? n with
  | none => exact absurd h (ofInt?_eq_none_iff_not_fits.1 hv)
  | some v => exact ⟨v, ofInt?_eq_some_iff.1 hv⟩

theorem text_eq_toString (v : Value) : v.text = toString v.toInt := by
  apply String.toList_inj.1
  unfold text chars
  cases v.toInt with
  | ofNat n => simp [Int.toString_eq_repr, Int.repr]
  | negSucc n => simp [Int.toString_eq_repr, Int.repr, Int.negSucc_lt_zero]

end Value

namespace Op

variable {op : Op} {a b v : Value} {l : Location} {err : EvalError}

theorem apply_eq_ok_iff : op.apply a b l = .ok v ↔ op.exact a.toInt b.toInt = some v.toInt := by
  unfold apply
  cases hexact : op.exact a.toInt b.toInt with
  | none => simp
  | some n =>
      dsimp only
      cases hv : Value.ofInt? n with
      | none =>
          have hn := Value.ofInt?_eq_none_iff_not_fits.1 hv
          simp only [reduceCtorEq, Option.some.injEq, false_iff]
          rintro rfl
          exact hn v.fits_toInt
      | some w =>
          obtain rfl := Value.ofInt?_eq_some_iff.1 hv
          simp [Int64.toInt_inj]

theorem apply_eq_error_iff :
    op.apply a b l = .error err ↔
      (op = .div ∧ b.toInt = 0 ∧ err = .divisionByZero l) ∨
        ∃ n, op.exact a.toInt b.toInt = some n ∧ ¬ Value.Fits n ∧
          err = .integerOverflow (op.operation a b) l := by
  unfold apply
  cases hexact : op.exact a.toInt b.toInt with
  | none =>
      obtain ⟨rfl, hb⟩ := exact_eq_none_iff.1 hexact
      simp [hb, eq_comm]
  | some n =>
      have hdefined : ¬ (op = .div ∧ b.toInt = 0) := by
        rw [← exact_eq_none_iff (a := a.toInt), hexact]
        simp
      dsimp only
      cases hv : Value.ofInt? n with
      | none =>
          have hn := Value.ofInt?_eq_none_iff_not_fits.1 hv
          simp [← and_assoc, hdefined, hn, eq_comm]
      | some w =>
          obtain rfl := Value.ofInt?_eq_some_iff.1 hv
          simp [← and_assoc, hdefined, w.fits_toInt]

end Op

namespace Expr

/-- Over the unbounded integers the expression comes to `n`. -/
inductive Denotes : Expr → Int → Prop
  | literal (v : Value) (l : Location) (width : Nat) : Denotes (.literal v l width) v.toInt
  | sum {left right : Expr} {a b : Int} (l : Location) (hleft : Denotes left a)
      (hright : Denotes right b) : Denotes (.binary .add left right l) (a + b)
  | difference {left right : Expr} {a b : Int} (l : Location) (hleft : Denotes left a)
      (hright : Denotes right b) : Denotes (.binary .sub left right l) (a - b)
  | product {left right : Expr} {a b : Int} (l : Location) (hleft : Denotes left a)
      (hright : Denotes right b) : Denotes (.binary .mul left right l) (a * b)
  | quotient {left right : Expr} {a b : Int} (l : Location) (hleft : Denotes left a)
      (hright : Denotes right b) (hb : b ≠ 0) : Denotes (.binary .div left right l) (a.tdiv b)

/-- The operator at the root fails with `err`, although its operands fit. -/
inductive Fails : Expr → EvalError → Prop
  | byZero {left right : Expr} {a : Int} (l : Location) (hleft : left.Denotes a)
      (ha : Value.Fits a) (hright : right.Denotes 0) :
      Fails (.binary .div left right l) (.divisionByZero l)
  | overflow {op : Op} {left right : Expr} {l : Location} {a b n : Int} (hleft : left.Denotes a)
      (ha : Value.Fits a) (hright : right.Denotes b) (hb : Value.Fits b)
      (hroot : (binary op left right l).Denotes n) (hn : ¬ Value.Fits n) :
      Fails (.binary op left right l) (.integerOverflow s!"{a} {op.symbol} {b}" l)

variable {e left right : Expr} {op : Op} {l : Location} {n : Int} {v : Value} {err : EvalError}

theorem denotes_binary_iff :
    (binary op left right l).Denotes n ↔
      ∃ a b, left.Denotes a ∧ right.Denotes b ∧ op.exact a b = some n := by
  constructor
  · intro h
    cases h with
    | sum _ hleft hright | difference _ hleft hright | product _ hleft hright =>
        exact ⟨_, _, hleft, hright, rfl⟩
    | quotient _ hleft hright hb => exact ⟨_, _, hleft, hright, by simp [Op.exact, hb]⟩
  · rintro ⟨a, b, hleft, hright, hn⟩
    cases op with
    | add => exact Option.some.inj hn ▸ .sum l hleft hright
    | sub => exact Option.some.inj hn ▸ .difference l hleft hright
    | mul => exact Option.some.inj hn ▸ .product l hleft hright
    | div =>
        by_cases hb : b = 0
        · simp [Op.exact, hb] at hn
        · have hn : a.tdiv b = n := by simpa [Op.exact, hb] using hn
          exact hn ▸ .quotient l hleft hright hb

theorem Denotes.unique {m n : Int} (hm : e.Denotes m) (hn : e.Denotes n) : m = n := by
  induction e generalizing m n with
  | literal => cases hm; cases hn; rfl
  | binary op left right l ihl ihr =>
      obtain ⟨a, b, hleft, hright, hab⟩ := denotes_binary_iff.1 hm
      obtain ⟨a', b', hleft', hright', hab'⟩ := denotes_binary_iff.1 hn
      obtain rfl := ihl hleft hleft'
      obtain rfl := ihr hright hright'
      exact Option.some.inj (hab.symm.trans hab')

/-- An operator fails in one way only. -/
theorem Fails.unique {err' : EvalError} (h : e.Fails err) (h' : e.Fails err') : err = err' := by
  cases h with
  | byZero l hleft ha hright =>
      cases h' with
      | byZero => rfl
      | overflow _ _ _ _ hroot =>
          obtain ⟨a, b, -, hb, hn⟩ := denotes_binary_iff.1 hroot
          obtain rfl := hb.unique hright
          simp [Op.exact] at hn
  | overflow hleft ha hright hb hroot hn =>
      cases h' with
      | byZero _ _ _ hright' =>
          obtain ⟨a, b, -, hb, hn⟩ := denotes_binary_iff.1 hroot
          obtain rfl := hb.unique hright'
          simp [Op.exact] at hn
      | overflow hleft' _ hright' _ _ _ => rw [hleft.unique hleft', hright.unique hright']

/-- An operator that fails denotes no integer of 64 bits. -/
theorem Fails.not_fits (h : e.Fails err) (hn : e.Denotes n) : ¬ Value.Fits n := by
  cases h with
  | byZero l hleft ha hright =>
      obtain ⟨a, b, -, hb, hexact⟩ := denotes_binary_iff.1 hn
      obtain rfl := hb.unique hright
      simp [Op.exact] at hexact
  | overflow _ _ _ _ hroot hfits => rwa [hn.unique hroot]

/-- All operators of `e` come to integers of 64 bits. -/
def StaysInRange (e : Expr) : Prop :=
  ∀ f ∈ e.operators, ∃ n, f.Denotes n ∧ Value.Fits n

theorem staysInRange_binary_iff :
    (binary op left right l).StaysInRange ↔
      left.StaysInRange ∧ right.StaysInRange ∧
        ∃ n, (binary op left right l).Denotes n ∧ Value.Fits n := by
  simp only [StaysInRange, operators, List.forall_mem_append, List.forall_mem_singleton, and_assoc]

theorem StaysInRange.fits (h : e.StaysInRange) (hn : e.Denotes n) : Value.Fits n := by
  cases e with
  | literal v => cases hn; exact v.fits_toInt
  | binary op left right l =>
      obtain ⟨-, -, m, hm, hfits⟩ := staysInRange_binary_iff.1 h
      rwa [hn.unique hm]

theorem eval_eq_ok_iff : e.eval = .ok v ↔ e.Denotes v.toInt ∧ e.StaysInRange := by
  induction e generalizing v with
  | literal w l width =>
      constructor
      · intro h
        obtain rfl : w = v := by simpa [eval] using h
        exact ⟨.literal w l width, by simp [StaysInRange, operators]⟩
      · rintro ⟨h, -⟩
        generalize hm : v.toInt = m at h
        cases h
        rw [eval, Int64.toInt_inj.1 hm]
  | binary op left right l ihl ihr =>
      rw [staysInRange_binary_iff]
      constructor
      · intro h
        obtain ⟨a, b, hleft, hright, happly⟩ := eval_binary_eq_ok_iff.1 h
        obtain ⟨ha, hrange⟩ := ihl.1 hleft
        obtain ⟨hb, hrange'⟩ := ihr.1 hright
        have hroot : (binary op left right l).Denotes v.toInt :=
          denotes_binary_iff.2 ⟨_, _, ha, hb, Op.apply_eq_ok_iff.1 happly⟩
        exact ⟨hroot, hrange, hrange', _, hroot, v.fits_toInt⟩
      · rintro ⟨hroot, hrange, hrange', -⟩
        obtain ⟨m, n, hm, hn, hexact⟩ := denotes_binary_iff.1 hroot
        obtain ⟨a, rfl⟩ := Value.exists_toInt_eq (hrange.fits hm)
        obtain ⟨b, rfl⟩ := Value.exists_toInt_eq (hrange'.fits hn)
        exact eval_binary_eq_ok_iff.2
          ⟨a, b, ihl.2 ⟨hm, hrange⟩, ihr.2 ⟨hn, hrange'⟩, Op.apply_eq_ok_iff.2 hexact⟩

theorem fails_of_apply {a b : Value} (hleft : left.eval = .ok a) (hright : right.eval = .ok b)
    (happly : op.apply a b l = .error err) : (binary op left right l).Fails err := by
  have ha := (eval_eq_ok_iff.1 hleft).1
  have hb := (eval_eq_ok_iff.1 hright).1
  rcases Op.apply_eq_error_iff.1 happly with ⟨rfl, hzero, rfl⟩ | ⟨n, hexact, hn, rfl⟩
  · exact .byZero l ha a.fits_toInt (hzero ▸ hb)
  · rw [Op.operation, Value.text_eq_toString, Value.text_eq_toString]
    exact .overflow ha a.fits_toInt hb b.fits_toInt
      (denotes_binary_iff.2 ⟨_, _, ha, hb, hexact⟩) hn

theorem not_fails_of_eval (h : e.eval = .ok v) : ¬ e.Fails err := by
  intro hfails
  exact hfails.not_fits (eval_eq_ok_iff.1 h).1 v.fits_toInt

/-- The first operator that fails, in the order of evaluation, fails with `err`. -/
def FirstFailure (e : Expr) (err : EvalError) : Prop :=
  ∃ before f after, e.operators = before ++ f :: after ∧
    (∀ g ∈ before, ∀ err', ¬ g.Fails err') ∧ f.Fails err

theorem firstFailure_of_eval (h : e.eval = .error err) : e.FirstFailure err := by
  obtain ⟨before, op, left, right, l, after, a, b, hops, hbefore, hleft, hright, happly⟩ :=
    exists_failsAfter h
  refine ⟨before, _, after, hops, ?_, fails_of_apply hleft hright happly⟩
  intro g hg err'
  obtain ⟨v, hv⟩ := hbefore g hg
  exact not_fails_of_eval hv

theorem FirstFailure.unique {err' : EvalError} (h : e.FirstFailure err)
    (h' : e.FirstFailure err') : err = err' := by
  classical
  obtain ⟨before, f, after, hops, hbefore, hf⟩ := h
  obtain ⟨before', f', after', hops', hbefore', hf'⟩ := h'
  -- both are what a search for a failing operator finds
  have hfind : e.operators.find? (fun g => ∃ x, g.Fails x) = some f :=
    List.find?_eq_some_iff_append.2
      ⟨by simpa using ⟨err, hf⟩, before, after, hops, by simpa using hbefore⟩
  have hfind' : e.operators.find? (fun g => ∃ x, g.Fails x) = some f' :=
    List.find?_eq_some_iff_append.2
      ⟨by simpa using ⟨err', hf'⟩, before', after', hops', by simpa using hbefore'⟩
  obtain rfl := Option.some.inj (hfind.symm.trans hfind')
  exact hf.unique hf'

/-- Evaluation is exact: it gives the integer that the expression denotes if no
operator leaves the integers of 64 bits, and the error of the first operator that
does otherwise. -/
theorem eval_is_exact (e : Expr) :
    (∀ v, e.eval = .ok v ↔ e.Denotes v.toInt ∧ e.StaysInRange) ∧
      ∀ err, e.eval = .error err ↔ e.FirstFailure err := by
  refine ⟨fun v => eval_eq_ok_iff, fun err => ⟨firstFailure_of_eval, fun hfirst => ?_⟩⟩
  cases heval : e.eval with
  | error err' => rw [hfirst.unique (firstFailure_of_eval heval)]
  | ok v =>
      obtain ⟨before, f, after, hops, -, hf⟩ := hfirst
      have hmem : f ∈ e.operators := by simp [hops]
      obtain ⟨w, hw⟩ := exists_eval_of_mem_operators heval hmem
      exact absurd hf (not_fails_of_eval hw)

-- The least integer of 64 bits has no counterpart with the other sign.
example : (binary .div (literal (-9223372036854775808) .start 20) (literal (-1) .start 2)
    .start).eval = .error (.integerOverflow "-9223372036854775808 / -1" .start) := rfl

end Expr

end StepCalc
