import Mathlib.Tactic.ByContra
import OrderEncoding.Inequality

/-!
# Thresholds of monomials

A monomial with a nonzero coefficient is at most a bound exactly when the
threshold of its variable holds, and as long as the bound is one that the
encoding asks for, the threshold lies where the axioms of the variable give it a
meaning.
-/

namespace OrderEncoding

namespace Threshold

@[simp] theorem var_ofMonomial
    (term : Monomial)
    (bound : Int) :
    (ofMonomial term bound).var = term.var := by
  unfold ofMonomial
  split <;> rfl

@[simp] theorem eval_negated
    (threshold : Threshold)
    (value : Int) :
    threshold.negated.eval value = !threshold.eval value := by
  obtain ⟨var, bound, positive⟩ := threshold
  cases positive <;> simp [negated, eval]

/-- Floor division moves a positive coefficient to the other side. -/
theorem le_fdiv_iff
    {coefficient : Int}
    (positive : 0 < coefficient)
    (value bound : Int) :
    value ≤ bound.fdiv coefficient ↔ coefficient * value ≤ bound := by
  rw [Int.fdiv_eq_ediv_of_nonneg bound (Int.le_of_lt positive),
    Int.le_ediv_iff_mul_le positive, Int.mul_comm]

theorem eval_ofMonomial
    {term : Monomial}
    (nonzero : term.coefficient ≠ 0)
    (bound value : Int) :
    (ofMonomial term bound).eval value =
      decide (term.coefficient * value ≤ bound) := by
  unfold ofMonomial
  split
  next positive =>
    simp only [eval, le_fdiv_iff positive, beq_true]
  next nonpositive =>
    have opposite : 0 < -term.coefficient := by omega
    have below : value ≤ -bound.fdiv (-term.coefficient) - 1 ↔
        ¬term.coefficient * value ≤ bound := by
      have moved := le_fdiv_iff opposite (-value) bound
      rw [Int.neg_mul_neg] at moved
      rw [← moved]
      omega
    simp only [eval, below, decide_not, beq_false, Bool.not_not]

/-- The bounds that the encoding asks for give thresholds from one below the
domain to its greatest value. -/
theorem bound_ofMonomial_mem
    {term : Monomial}
    (nonzero : term.coefficient ≠ 0)
    {bound : Int}
    (low : term.lower - 1 ≤ bound)
    (high : bound ≤ term.upper) :
    term.var.lower - 1 ≤ (ofMonomial term bound).bound ∧
      (ofMonomial term bound).bound ≤ term.var.upper := by
  unfold ofMonomial
  unfold Monomial.lower at low
  unfold Monomial.upper at high
  split
  next positive =>
    rw [if_pos positive] at low high
    dsimp only
    constructor
    · rw [le_fdiv_iff positive, Int.mul_sub]
      omega
    · by_contra above
      have reached := (le_fdiv_iff positive _ bound).mp
        (show term.var.upper + 1 ≤ bound.fdiv term.coefficient by omega)
      rw [Int.mul_add] at reached
      omega
  next nonpositive =>
    rw [if_neg nonpositive] at low high
    have opposite : 0 < -term.coefficient := by omega
    dsimp only
    constructor
    · by_contra below
      have reached := (le_fdiv_iff opposite _ bound).mp
        (show -term.var.lower + 1 ≤ bound.fdiv (-term.coefficient) by omega)
      rw [Int.mul_add, Int.neg_mul_neg] at reached
      omega
    · have reached : -term.var.upper - 1 ≤ bound.fdiv (-term.coefficient) := by
        rw [le_fdiv_iff opposite, Int.mul_sub, Int.neg_mul_neg]
        omega
      omega

end Threshold

namespace Inequality

@[simp] theorem eval_negated
    (value : String → Int)
    (inequality : Inequality) :
    inequality.negated.eval value = !inequality.eval value := by
  obtain ⟨form, bound, positive⟩ := inequality
  cases positive <;> simp [negated, eval]

end Inequality
end OrderEncoding
