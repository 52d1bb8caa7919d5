import Mathlib.Algebra.BigOperators.Ring.Finset
import Mathlib.Algebra.Order.BigOperators.GroupWithZero.List
import Mathlib.Algebra.Order.Ring.Int
import Mathlib.Data.List.Perm.Subperm
import OrderEncoding.Proofs.Encoding.FilteredTuples
import OrderEncoding.Proofs.Encoding.Linear
import OrderEncoding.Proofs.Pairings
import OrderEncoding.Proofs.Problem.MergedForms

/-!
# The size of an encoding

Every disjunction of an encoding compares each monomial with one bound.  The
bounds of a disjunction have a given sum, so each of them is determined by the
others, and there are at most as many disjunctions as choices of the others.  A
negated inequality is encoded over the opposite monomials, which have as many
bounds.
-/

namespace OrderEncoding

namespace Encoding

theorem nodup_tuplesWithSum
    (ranges : List (Int × Int))
    (target : Int) :
    (tuplesWithSum ranges target).Nodup := by
  rw [tuplesWithSum_eq_filteredTuples]
  apply List.Nodup.filter
  apply nodup_choices
  intro values member
  obtain ⟨range, _, rfl⟩ := List.mem_map.mp member
  exact (Interval.pairwise_values range.1 range.2).imp Int.ne_of_lt

theorem mem_choices_of_within
    {tuple : List Int}
    {ranges : List (Int × Int)}
    (within : Within tuple ranges) :
    tuple ∈ choices (ranges.map fun range => Interval.values range.1 range.2) := by
  rw [mem_choices, List.forall₂_map_right_iff]
  exact within.imp fun _ _ bounds => Interval.mem_values.mpr bounds

/-- There are at most as many tuples of a sum as choices from all ranges but one. -/
theorem length_tuplesWithSum_le
    (ranges : List (Int × Int))
    (target : Int)
    (index : Nat) :
    (tuplesWithSum ranges target).length ≤
      ((ranges.eraseIdx index).map fun range =>
        (range.2 - range.1 + 1).toNat).prod := by
  let sets := (ranges.eraseIdx index).map fun range =>
    Interval.values range.1 range.2
  let others := (tuplesWithSum ranges target).map (·.eraseIdx index)
  have nodup : others.Nodup := by
    apply (nodup_tuplesWithSum ranges target).map_on
    intro tuple member other otherMember same
    obtain ⟨within, sum⟩ := mem_tuplesWithSum.mp member
    obtain ⟨otherWithin, otherSum⟩ := mem_tuplesWithSum.mp otherMember
    apply eq_of_eraseIdx_eq _ (sum.trans otherSum.symm) same
    exact within.length_eq.trans otherWithin.length_eq.symm
  have chosen : others ⊆ choices sets := by
    intro chosen member
    obtain ⟨tuple, tupleMem, rfl⟩ := List.mem_map.mp member
    have within := (mem_tuplesWithSum.mp tupleMem).1
    exact mem_choices_of_within (forall₂_eraseIdx within index)
  calc
    (tuplesWithSum ranges target).length = others.length :=
      (List.length_map _).symm
    _ ≤ (choices sets).length := (nodup.subperm chosen).length_le
    _ = ((ranges.eraseIdx index).map fun range =>
          (range.2 - range.1 + 1).toNat).prod := by
      rw [length_choices, List.map_map]
      simp only [Function.comp_def, Interval.length_values]

end Encoding

namespace Monomial

theorem lower_le_upper (term : Monomial) : term.lower ≤ term.upper := by
  unfold lower upper
  have ordered := term.var.lower_le_upper
  split
  next positive =>
    exact Int.mul_le_mul_of_nonneg_left ordered (Int.le_of_lt positive)
  next nonpositive =>
    exact Int.mul_le_mul_of_nonpos_left (Int.not_lt.mp nonpositive) ordered

/-- The number of bounds that an encoding compares a monomial with: from one less
than its least value to its greatest value. -/
def boundCount (term : Monomial) : Int :=
  term.upper - term.lower + 2

theorem boundCount_pos (term : Monomial) : 0 < term.boundCount := by
  have ordered := term.lower_le_upper
  unfold boundCount
  omega

@[simp] theorem boundCount_negated (term : Monomial) :
    term.negated.boundCount = term.boundCount := by
  unfold boundCount
  rw [lower_negated, upper_negated]
  omega

end Monomial

namespace LinearForm

/-- A disjunction compares the monomials of a form, one after the other, with one
bound each. -/
def Compares (form : LinearForm) (disjunction : List Threshold) : Prop :=
  List.Forall₂
    (fun term threshold => ∃ reached, term.lower - 1 ≤ reached ∧
      reached ≤ term.upper ∧ threshold = Threshold.ofMonomial term reached)
    form.monomials disjunction

theorem Compares.length_eq
    {form : LinearForm}
    {disjunction : List Threshold}
    (compares : form.Compares disjunction) :
    disjunction.length = form.monomials.length :=
  (List.Forall₂.length_eq compares).symm

theorem compares_tupleDisjunction
    {form : LinearForm}
    {bounds : List Int}
    (within : Encoding.Within bounds form.boundRanges) :
    form.Compares (form.tupleDisjunction bounds) := by
  obtain ⟨monomials⟩ := form
  unfold Compares tupleDisjunction
  rw [Encoding.Within, boundRanges, List.forall₂_map_right_iff] at within
  dsimp only at within ⊢
  induction within with
  | nil => exact .nil
  | cons bounded _ inductionHypothesis =>
      exact .cons ⟨_, bounded.1, bounded.2, rfl⟩ inductionHypothesis

/-- The conjunction is a single empty disjunction where the least value of the form
exceeds the bound.  Elsewhere every disjunction compares all monomials. -/
theorem atMostForm_cases (form : LinearForm) (bound : Int) :
    (bound < form.lower ∧ form.atMostForm bound = [[]]) ∨
      (form.lower ≤ bound ∧ [] ∉ form.atMostForm bound ∧
        ∀ disjunction ∈ form.atMostForm bound, form.Compares disjunction) := by
  unfold atMostForm
  split
  next empty =>
    have zero : form.lower = 0 := by
      rw [lower, List.isEmpty_iff.mp empty]
      rfl
    rw [zero]
    split
    next holds => exact .inr ⟨holds, by simp, by simp⟩
    next fails => exact .inl ⟨Int.not_le.mp fails, rfl⟩
  next nonempty =>
    split
    next unreachable => exact .inl ⟨unreachable, rfl⟩
    next reachable =>
      have compares : ∀ disjunction ∈ (Encoding.tuplesWithSum form.boundRanges
            (bound - form.monomials.length + 1)).map form.tupleDisjunction,
          form.Compares disjunction := by
        intro disjunction member
        obtain ⟨bounds, boundsMem, rfl⟩ := List.mem_map.mp member
        exact compares_tupleDisjunction
          (Encoding.mem_tuplesWithSum.mp boundsMem).1
      refine .inr ⟨Int.not_lt.mp reachable, fun member => nonempty ?_, compares⟩
      rw [List.isEmpty_iff, ← List.length_eq_zero_iff]
      exact (compares [] member).length_eq.symm

theorem prod_boundCount_pos (terms : List Monomial) :
    0 < (terms.map Monomial.boundCount).prod := by
  apply List.prod_pos
  intro count member
  obtain ⟨term, _, rfl⟩ := List.mem_map.mp member
  exact term.boundCount_pos

/-- The bounds of all monomials but one can be chosen in as many ways as the
product of their numbers says. -/
theorem prod_boundRanges (form : LinearForm) (index : Nat) :
    (((form.boundRanges.eraseIdx index).map fun range =>
        (range.2 - range.1 + 1).toNat).prod : Nat) =
      ((form.monomials.eraseIdx index).map Monomial.boundCount).prod := by
  unfold boundRanges
  rw [Nat.cast_list_prod, List.eraseIdx_map, List.map_map, List.map_map]
  congr 1
  apply List.map_congr_left
  intro term _
  have ordered := term.lower_le_upper
  simp only [Function.comp_apply, Monomial.boundCount]
  omega

theorem length_atMostForm_le
    (form : LinearForm)
    (bound : Int)
    (index : Nat) :
    ((form.atMostForm bound).length : Int) ≤
      ((form.monomials.eraseIdx index).map Monomial.boundCount).prod := by
  have positive := prod_boundCount_pos (form.monomials.eraseIdx index)
  unfold atMostForm
  split
  next empty =>
    split
    next holds => exact Int.le_of_lt positive
    next fails => exact positive
  next nonempty =>
    split
    next unreachable => exact positive
    next reachable =>
      rw [List.length_map, ← prod_boundRanges]
      exact Int.ofNat_le.mpr (Encoding.length_tuplesWithSum_le _ _ index)

end LinearForm

namespace Inequality

/-- The form that an inequality keeps below a bound: its own or, if the inequality
is negated, the opposite one. -/
def boundedForm (inequality : Inequality) : LinearForm :=
  if inequality.positive then inequality.form else inequality.form.negated

/-- An inequality is out of reach when the range of its form lies above the bound
or, if the inequality is negated, does not exceed the bound. -/
def OutOfReach (inequality : Inequality) : Prop :=
  if inequality.positive then inequality.bound < inequality.form.lower
  else inequality.form.upper ≤ inequality.bound

theorem exists_thresholdForm_eq (inequality : Inequality) :
    ∃ bound, inequality.thresholdForm =
        ThresholdForm.distinct (inequality.boundedForm.atMostForm bound) ∧
      (inequality.OutOfReach ↔ bound < inequality.boundedForm.lower) := by
  unfold thresholdForm boundedForm OutOfReach
  split
  next positive => exact ⟨_, rfl, .rfl⟩
  next negative =>
    refine ⟨_, rfl, ?_⟩
    rw [LinearForm.lower_negated]
    omega

theorem length_boundedForm (inequality : Inequality) :
    inequality.boundedForm.monomials.length =
      inequality.form.monomials.length := by
  unfold boundedForm
  split
  next positive => rfl
  next negative => exact List.length_map _

/-- The opposite form has as many bounds at every monomial. -/
theorem map_boundCount_boundedForm
    (inequality : Inequality)
    (index : Nat) :
    (inequality.boundedForm.monomials.eraseIdx index).map Monomial.boundCount =
      (inequality.form.monomials.eraseIdx index).map Monomial.boundCount := by
  unfold boundedForm
  split
  next positive => rfl
  next negative =>
    rw [LinearForm.negated, List.eraseIdx_map, List.map_map]
    apply List.map_congr_left
    intro term _
    exact term.boundCount_negated

/-- An inequality out of reach has a single empty disjunction.  Elsewhere every
disjunction compares all monomials. -/
theorem thresholdForm_cases (inequality : Inequality) :
    (inequality.OutOfReach ∧ inequality.thresholdForm = [[]]) ∨
      (¬inequality.OutOfReach ∧ [] ∉ inequality.thresholdForm ∧
        ∀ disjunction ∈ inequality.thresholdForm,
          inequality.boundedForm.Compares disjunction) := by
  obtain ⟨bound, same, outOfReach_iff⟩ := inequality.exists_thresholdForm_eq
  have fewer := ThresholdForm.distinct_sublist
    (inequality.boundedForm.atMostForm bound)
  rw [same, outOfReach_iff]
  rcases LinearForm.atMostForm_cases inequality.boundedForm bound with
    ⟨below, single⟩ | ⟨reached, noneEmpty, compares⟩
  · rw [single]
    exact .inl ⟨below, rfl⟩
  · exact .inr ⟨Int.not_lt.mpr reached, fun member => noneEmpty (fewer.subset member),
      fun disjunction member => compares disjunction (fewer.subset member)⟩

theorem length_thresholdForm_le
    (inequality : Inequality)
    (index : Nat) :
    (inequality.thresholdForm.length : Int) ≤
      ((inequality.form.monomials.eraseIdx index).map
        Monomial.boundCount).prod := by
  obtain ⟨bound, same, _⟩ := inequality.exists_thresholdForm_eq
  have fewer := ThresholdForm.distinct_sublist
    (inequality.boundedForm.atMostForm bound)
  rw [same, ← inequality.map_boundCount_boundedForm index]
  exact Int.le_trans (Int.ofNat_le.mpr fewer.length_le)
    (LinearForm.length_atMostForm_le _ bound index)

/-- The encoding of an inequality is a single empty disjunction exactly when the
inequality is out of reach.  Otherwise each disjunction has one threshold for each
monomial, in order.  Whichever monomial is left out, there are at most as many
disjunctions as the product of the numbers of bounds of the others, for an
inequality and for its negation. -/
theorem encode_shape_and_size (inequality : Inequality) :
    ∃ encoding, inequality.encode = .ok encoding ∧
      (encoding = [[]] ↔ inequality.OutOfReach) ∧
      (encoding = [[]] ∨ ∀ disjunction ∈ encoding,
        disjunction.length = inequality.form.monomials.length ∧
          inequality.boundedForm.Compares disjunction) ∧
      ∀ index, (encoding.length : Int) ≤
        ((inequality.form.monomials.eraseIdx index).map
          Monomial.boundCount).prod := by
  refine ⟨_, inequality.encode_eq_ok, ?_⟩
  have size := inequality.length_thresholdForm_le
  rcases inequality.thresholdForm_cases with
    ⟨outOfReach, single⟩ | ⟨inReach, noneEmpty, compares⟩
  · exact ⟨iff_of_true single outOfReach, .inl single, size⟩
  · refine ⟨iff_of_false ?_ inReach, .inr ?_, size⟩
    · intro single
      exact noneEmpty (single ▸ .head _)
    · intro disjunction member
      have compared := compares disjunction member
      exact ⟨compared.length_eq.trans inequality.length_boundedForm, compared⟩

/-- The bound on the size is reached. -/
example :
    let x : Variable := { name := "x", lower := 0, upper := 2 }
    let y : Variable := { name := "y", lower := 0, upper := 2 }
    let inequality : Inequality := ⟨⟨[⟨x, 1⟩, ⟨y, 1⟩]⟩, 2, true⟩
    inequality.encode.map List.length = .ok 4 ∧
      ((inequality.form.monomials.eraseIdx 0).map Monomial.boundCount).prod = 4 := by
  decide

end Inequality
end OrderEncoding
