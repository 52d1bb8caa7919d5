import Mathlib.Data.Int.Init
import Mathlib.Data.Int.LeastGreatest
import OrderEncoding.Encoding.Axioms
import OrderEncoding.Formula

/-!
# The axioms of a variable describe an integer

A truth assignment satisfies the axioms of a variable exactly when some value of
the domain makes each order atom true that lies at or above it, and no other.
-/

namespace OrderEncoding

/-- Whether a threshold holds when each atom `a` has the truth value
`truth a`. -/
def Threshold.holds (truth : Atom → Bool) (threshold : Threshold) : Bool :=
  threshold.toLiteral.eval truth

namespace Variable

/-- A truth assignment gives a variable a value when it makes exactly the order
atoms at or above the value true, among those from one below the domain to its
greatest value. -/
def HasValue (x : Variable) (truth : Atom → Bool) (value : Int) : Prop :=
  ∀ bound, x.lower - 1 ≤ bound → bound ≤ x.upper →
    (truth (.order x.name bound) = true ↔ value ≤ bound)

@[simp] theorem holds_atMost
    (x : Variable)
    (truth : Atom → Bool)
    (bound : Int) :
    (x.atMost bound).holds truth = truth (.order x.name bound) := by
  simp [Threshold.holds, Literal.eval, Threshold.toLiteral, atMost]

@[simp] theorem holds_negated_atMost
    (x : Variable)
    (truth : Atom → Bool)
    (bound : Int) :
    (x.atMost bound).negated.holds truth = !truth (.order x.name bound) := by
  simp [Threshold.holds, Literal.eval, Threshold.toLiteral, atMost,
    Threshold.negated]

/-- What the two ends of a domain and monotonicity at some bounds say about the
order atoms. -/
theorem chain_holds_iff
    (x : Variable)
    (bounds : List Int)
    (truth : Atom → Bool) :
    List.all ([(x.atMost (x.lower - 1)).negated] :: [x.atMost x.upper] ::
        bounds.map x.monotone) (·.any (Threshold.holds truth)) = true ↔
      truth (.order x.name (x.lower - 1)) = false ∧
      truth (.order x.name x.upper) = true ∧
      ∀ bound ∈ bounds, truth (.order x.name (bound - 1)) = true →
        truth (.order x.name bound) = true := by
  simp only [monotone, List.all_cons, List.any_cons, List.any_nil,
    List.all_map, holds_atMost, holds_negated_atMost, Bool.or_false,
    Bool.and_eq_true, Bool.not_eq_true', List.all_eq_true,
    Function.comp_apply, Bool.or_eq_true]
  refine and_congr_right fun _ => and_congr_right fun _ => ?_
  refine forall_congr' fun bound => imp_congr_right fun _ => ?_
  rw [← Bool.not_eq_true, imp_iff_not_or]

/-- What the axioms of a variable say about the order atoms. -/
theorem axioms_hold_iff
    (x : Variable)
    (truth : Atom → Bool) :
    x.axioms.all (·.any (Threshold.holds truth)) = true ↔
      truth (.order x.name (x.lower - 1)) = false ∧
      truth (.order x.name x.upper) = true ∧
      ∀ bound, x.Contains bound → truth (.order x.name (bound - 1)) = true →
        truth (.order x.name bound) = true := by
  rw [axioms, chain_holds_iff]
  simp only [mem_domain]

/-- Truth goes on along the chain of the order atoms. -/
theorem truth_of_le
    {x : Variable}
    {truth : Atom → Bool}
    (chain : ∀ bound, x.Contains bound →
      truth (.order x.name (bound - 1)) = true →
        truth (.order x.name bound) = true)
    {value bound : Int}
    (atValue : truth (.order x.name value) = true)
    (low : x.lower ≤ value)
    (above : value ≤ bound)
    (high : bound ≤ x.upper) :
    truth (.order x.name bound) = true := by
  induction bound, above using Int.leInduction with
  | base => exact atValue
  | succ bound above inductionHypothesis =>
      apply chain (bound + 1) ⟨by omega, high⟩
      rw [Int.add_sub_cancel]
      exact inductionHypothesis (by omega)

/-- The axioms hold exactly when the variable has a value of its domain. -/
theorem axioms_hold_iff_exists_hasValue
    (x : Variable)
    (truth : Atom → Bool) :
    x.axioms.all (·.any (Threshold.holds truth)) = true ↔
      ∃ value, x.Contains value ∧ x.HasValue truth value := by
  rw [axioms_hold_iff]
  constructor
  · rintro ⟨falseBelow, trueAtUpper, chain⟩
    obtain ⟨value, ⟨inside, atValue⟩, least⟩ :=
      Int.exists_least_of_bdd
        (P := fun bound => x.Contains bound ∧ truth (.order x.name bound) = true)
        ⟨x.lower, fun _ candidate => candidate.1.1⟩
        ⟨x.upper, ⟨x.lower_le_upper, Int.le_refl _⟩, trueAtUpper⟩
    refine ⟨value, inside, fun bound low high => ⟨fun holds => ?_, fun above => ?_⟩⟩
    · rcases Int.lt_or_eq_of_le low with inDomain | below
      · exact least bound ⟨⟨by omega, high⟩, holds⟩
      · rw [← below, falseBelow] at holds
        contradiction
    · exact truth_of_le chain atValue inside.1 above high
  · rintro ⟨value, inside, hasValue⟩
    have low := inside.1
    have high := inside.2
    refine ⟨?_, ?_, fun bound within before => ?_⟩
    · rw [← Bool.not_eq_true, hasValue _ (by omega) (by omega)]
      omega
    · rw [hasValue _ (by omega) (by omega)]
      exact high
    · obtain ⟨above, below⟩ := within
      rw [hasValue _ (by omega) (by omega)] at before
      rw [hasValue _ (by omega) below]
      omega

end Variable
end OrderEncoding
