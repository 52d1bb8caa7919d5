import Mathlib.Data.Rat.Floor
import OrderEncoding.Proofs.Encoding.Thresholds

/-!
# Inequalities of one term

An inequality over a single monomial is a threshold of its variable.  The bound of
the threshold is the quotient of the bound of the inequality and the coefficient,
rounded down for a positive coefficient.  For a negative one the quotient is rounded
up, and the threshold says that the variable is not below it.
-/

namespace OrderEncoding

namespace Threshold

theorem fdiv_eq_floor
    {divisor : Int}
    (positive : 0 < divisor)
    (dividend : Int) :
    dividend.fdiv divisor = ⌊(dividend / divisor : ℚ)⌋ := by
  have castPositive : (0 : ℚ) < divisor := Int.cast_pos.mpr positive
  apply eq_of_forall_le_iff
  intro value
  rw [le_fdiv_iff positive, Int.le_floor, le_div_iff₀ castPositive,
    ← Int.cast_mul, Int.cast_le, Int.mul_comm]

/-- The quotient by a negative divisor is rounded up when the quotient by the
opposite divisor is rounded down. -/
theorem neg_fdiv_neg_eq_ceil
    {divisor : Int}
    (negative : divisor < 0)
    (dividend : Int) :
    -dividend.fdiv (-divisor) = ⌈(dividend / divisor : ℚ)⌉ := by
  rw [fdiv_eq_floor (Int.neg_pos.mpr negative), ← Int.ceil_neg, Int.cast_neg,
    div_neg, neg_neg]

theorem bound_ofMonomial_of_pos
    {term : Monomial}
    (positive : 0 < term.coefficient)
    (bound : Int) :
    (ofMonomial term bound).bound = ⌊(bound / term.coefficient : ℚ)⌋ := by
  rw [ofMonomial, if_pos positive, fdiv_eq_floor positive]

theorem bound_ofMonomial_of_neg
    {term : Monomial}
    (negative : term.coefficient < 0)
    (bound : Int) :
    (ofMonomial term bound).bound = ⌈(bound / term.coefficient : ℚ)⌉ - 1 := by
  rw [ofMonomial, if_neg (by omega), neg_fdiv_neg_eq_ceil negative]

end Threshold

namespace Inequality

theorem eval_single
    (value : String → Int)
    (term : Monomial)
    (bound : Int)
    (positive : Bool) :
    eval value ⟨.single term, bound, positive⟩ =
      (decide (term.coefficient * value term.var.name ≤ bound) == positive) := by
  simp [eval, LinearForm.eval, LinearForm.single, Monomial.eval]

/-- The threshold of an inequality of one term, of either sign, holds exactly when
the inequality does. -/
theorem exists_toThreshold_single
    {term : Monomial}
    (nonzero : term.coefficient ≠ 0)
    (bound : Int)
    (positive : Bool) :
    ∃ threshold,
      toThreshold ⟨.single term, bound, positive⟩ = .ok threshold ∧
      threshold.var = term.var ∧
      threshold.bound = (Threshold.ofMonomial term bound).bound ∧
      ∀ value : String → Int, threshold.eval (value term.var.name) =
        eval value ⟨.single term, bound, positive⟩ := by
  have sameVar := Threshold.var_ofMonomial term bound
  cases positive with
  | true =>
      refine ⟨_, rfl, sameVar, rfl, fun value => ?_⟩
      rw [eval_single, if_pos rfl, Threshold.eval_ofMonomial nonzero, beq_true]
  | false =>
      refine ⟨_, rfl, sameVar, rfl, fun value => ?_⟩
      rw [eval_single, if_neg Bool.false_ne_true, Threshold.eval_negated,
        Threshold.eval_ofMonomial nonzero, beq_false]

/-- A monomial with a nonzero coefficient is at most a bound exactly when the
threshold made of them holds, at every integer.  Its bound is the quotient rounded
down for a positive coefficient, and one less than the quotient rounded up for a
negative one.  An inequality of the monomial, negated or not, amounts to a threshold
with that bound.  For a bound between one less than the least value of the monomial
and its greatest value, the bound of the threshold lies between one less than the
least value of the variable and its greatest value. -/
theorem toThreshold_exact
    {term : Monomial}
    (nonzero : term.coefficient ≠ 0)
    (bound : Int) :
    (∀ value, (Threshold.ofMonomial term bound).eval value =
        decide (term.coefficient * value ≤ bound)) ∧
      (Threshold.ofMonomial term bound).bound =
        (if 0 < term.coefficient then ⌊(bound / term.coefficient : ℚ)⌋
        else ⌈(bound / term.coefficient : ℚ)⌉ - 1) ∧
      (∀ positive, ∃ threshold,
        toThreshold ⟨.single term, bound, positive⟩ = .ok threshold ∧
        threshold.var = term.var ∧
        threshold.bound = (Threshold.ofMonomial term bound).bound ∧
        ∀ value : String → Int, threshold.eval (value term.var.name) =
          eval value ⟨.single term, bound, positive⟩) ∧
      (term.lower - 1 ≤ bound → bound ≤ term.upper →
        term.var.lower - 1 ≤ (Threshold.ofMonomial term bound).bound ∧
          (Threshold.ofMonomial term bound).bound ≤ term.var.upper) := by
  refine ⟨Threshold.eval_ofMonomial nonzero bound, ?_,
    exists_toThreshold_single nonzero bound,
    Threshold.bound_ofMonomial_mem nonzero⟩
  split
  next positive => exact Threshold.bound_ofMonomial_of_pos positive bound
  next nonpositive =>
    exact Threshold.bound_ofMonomial_of_neg (by omega) bound

/-- `-2x <= 3` is `-(x <= -2)`, since the quotient `-3/2` is rounded up to `-1`. -/
theorem toThreshold_exact_negative_coefficient :
    let x : Variable := { name := "x", lower := -4, upper := 4 }
    let term : Monomial := { var := x, coefficient := -2 }
    term.coefficient ≠ 0 ∧ term.lower - 1 ≤ 3 ∧ 3 ≤ term.upper ∧
      (Threshold.ofMonomial term 3).bound = -2 ∧
      (Threshold.ofMonomial term 3).eval (-1) = true ∧
      (Threshold.ofMonomial term 3).eval (-2) = false ∧
      x.lower - 1 ≤ (Threshold.ofMonomial term 3).bound ∧
      (Threshold.ofMonomial term 3).bound ≤ x.upper ∧
      ∃ threshold, toThreshold ⟨.single term, 3, false⟩ = .ok threshold ∧
        threshold.eval (-2) = true := by
  intro x term
  obtain ⟨holds, _, single, inside⟩ :=
    toThreshold_exact (by decide : term.coefficient ≠ 0) 3
  obtain ⟨threshold, amounts, _, _, means⟩ := single false
  obtain ⟨above, below⟩ := inside (by decide) (by decide)
  refine ⟨by decide, by decide, by decide, by decide, ?_, ?_, above, below,
    threshold, amounts, ?_⟩
  · rw [holds]
    decide
  · rw [holds]
    decide
  · rw [means fun _ => -2]
    decide

end Inequality
end OrderEncoding
