/-!
# Values

The calculator's numbers are the integers of 64 bits. Arithmetic is carried out
on exact integers; `Value.ofInt?` is the only way back and refuses whatever does
not fit, so nothing ever wraps around.
-/

namespace StepCalc

/-- An integer between `-2^63` and `2^63 - 1`. -/
abbrev Value := Int64

namespace Value

/-- The largest value, also the largest literal. -/
def largest : Nat := 0x7fffffffffffffff

/-- The value equal to `n`, if `n` is in range. -/
def ofInt? (n : Int) : Option Value :=
  if -(largest : Int) ≤ n + 1 ∧ n ≤ largest then some (Int64.ofInt n) else none

theorem ofInt?_eq_some_iff {n : Int} {v : Value} : ofInt? n = some v ↔ v.toInt = n := by
  unfold ofInt?
  constructor
  · intro h
    split at h
    · rename_i hn
      obtain rfl := Option.some.inj h
      simp only [largest] at hn
      exact Int64.toInt_ofInt_of_le (by omega) (by omega)
    · cases h
  · rintro rfl
    have hle := v.le_toInt
    have hlt := v.toInt_lt
    have hn : -(largest : Int) ≤ v.toInt + 1 ∧ v.toInt ≤ largest := by
      simp only [largest]
      omega
    rw [if_pos hn, Int64.ofInt_toInt]

theorem ofInt?_eq_none_iff {n : Int} :
    ofInt? n = none ↔ ¬ (-(largest : Int) ≤ n + 1 ∧ n ≤ largest) := by
  unfold ofInt?
  split <;> simp_all

theorem toInt_ofNat {n : Nat} (h : n ≤ largest) : (Int64.ofNat n).toInt = n := by
  simp only [largest] at h
  exact Int64.toInt_ofNat_of_lt (by omega)

/-- Decimal digits without leading zeros, after a minus sign if `v` is negative. -/
def chars (v : Value) : List Char :=
  if v.toInt < 0 then '-' :: Nat.toDigits 10 v.toInt.natAbs else Nat.toDigits 10 v.toInt.natAbs

def text (v : Value) : String :=
  String.ofList (chars v)

end Value

end StepCalc
