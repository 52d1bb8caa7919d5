import Mathlib.Data.Finset.Dedup
import Mathlib.Tactic.Tauto
import OrderEncoding.Encoding.Linear

/-!
# Dropping repeated disjunctions

Sorting a disjunction keeps its set of thresholds and nothing else, so that
disjunctions are sorted into the same list exactly when they are equal as sets.
Disjunctions that are equal as sets hold together.  A form therefore means the same
without the repeated ones.
-/

namespace OrderEncoding

namespace Threshold

/-- Only equal thresholds have the same place in the order. -/
theorem order_eq_iff
    {left right : Threshold} :
    order left right = .eq ↔ left = right := by
  obtain ⟨⟨name, lower, upper, _⟩, bound, positive⟩ := left
  obtain ⟨⟨otherName, otherLower, otherUpper, _⟩, otherBound, otherPositive⟩ :=
    right
  simp only [order, Ordering.then_eq_eq, Std.compare_eq_iff_eq, mk.injEq,
    Variable.mk.injEq, and_assoc]

theorem mem_insert
    {threshold inserted : Threshold}
    {disjunction : List Threshold} :
    threshold ∈ insert inserted disjunction ↔
      threshold = inserted ∨ threshold ∈ disjunction := by
  induction disjunction with
  | nil => simp [insert]
  | cons first rest inductionHypothesis =>
      simp only [insert]
      split
      next before => simp
      next same =>
        rw [order_eq_iff] at same
        simp [same]
      next after =>
        simp only [List.mem_cons, inductionHypothesis]
        tauto

@[simp] theorem mem_sorted
    {threshold : Threshold}
    {disjunction : List Threshold} :
    threshold ∈ sorted disjunction ↔ threshold ∈ disjunction := by
  induction disjunction with
  | nil => simp [sorted]
  | cons first rest inductionHypothesis =>
      rw [sorted, List.foldr_cons, mem_insert, List.mem_cons]
      exact or_congr_right inductionHypothesis

/-- The thresholds are compared field by field. -/
theorem order_eq_compareLex :
    order =
      compareLex (compareOn fun threshold => threshold.var.name)
        (compareLex (compareOn fun threshold => threshold.var.lower)
          (compareLex (compareOn fun threshold => threshold.var.upper)
            (compareLex (compareOn Threshold.bound)
              (compareOn Threshold.positive)))) := rfl

instance : Std.TransCmp order := by
  rw [order_eq_compareLex]
  infer_instance

/-- A threshold comes before another one in the order. -/
def Before (left right : Threshold) : Prop :=
  order left right = .lt

theorem Before.trans
    {first second third : Threshold}
    (before : Before first second)
    (beforeNext : Before second third) :
    Before first third :=
  Std.TransCmp.lt_trans before beforeNext

theorem Before.ne
    {left right : Threshold}
    (before : Before left right) :
    left ≠ right := by
  rintro rfl
  rw [Before, order_eq_iff.mpr rfl] at before
  contradiction

theorem pairwise_insert
    {inserted : Threshold}
    {disjunction : List Threshold}
    (increasing : disjunction.Pairwise Before) :
    (insert inserted disjunction).Pairwise Before := by
  induction disjunction with
  | nil => exact List.pairwise_singleton _ _
  | cons first rest inductionHypothesis =>
      obtain ⟨firstBefore, restIncreasing⟩ := List.pairwise_cons.mp increasing
      simp only [insert]
      split
      next before =>
        refine List.pairwise_cons.mpr ⟨fun threshold member => ?_, increasing⟩
        rcases List.mem_cons.mp member with rfl | inRest
        · exact before
        · exact Before.trans before (firstBefore threshold inRest)
      next same => exact increasing
      next after =>
        refine List.pairwise_cons.mpr
          ⟨fun threshold member => ?_, inductionHypothesis restIncreasing⟩
        rcases mem_insert.mp member with rfl | inRest
        · exact Std.OrientedCmp.gt_iff_lt.mp after
        · exact firstBefore threshold inRest

theorem pairwise_sorted (disjunction : List Threshold) :
    (sorted disjunction).Pairwise Before := by
  induction disjunction with
  | nil => exact .nil
  | cons first rest inductionHypothesis => exact pairwise_insert inductionHypothesis

/-- An increasing list is determined by its members. -/
theorem eq_of_pairwise_of_mem_iff
    {left right : List Threshold}
    (leftIncreasing : left.Pairwise Before)
    (rightIncreasing : right.Pairwise Before)
    (members : ∀ threshold, threshold ∈ left ↔ threshold ∈ right) :
    left = right := by
  have permuted : left.Perm right :=
    (List.perm_ext_iff_of_nodup (leftIncreasing.imp Before.ne)
      (rightIncreasing.imp Before.ne)).mpr members
  apply permuted.eq_of_pairwise _ leftIncreasing rightIncreasing
  intro threshold other _ _ before after
  exact absurd rfl (before.trans after).ne

/-- Disjunctions are sorted into the same list when they are equal as sets. -/
theorem sorted_eq_sorted_iff
    {left right : List Threshold} :
    sorted left = sorted right ↔ left.toFinset = right.toFinset := by
  rw [List.toFinset.ext_iff]
  constructor
  · intro equal threshold
    rw [← mem_sorted, equal, mem_sorted]
  · intro members
    apply eq_of_pairwise_of_mem_iff (pairwise_sorted left) (pairwise_sorted right)
    intro threshold
    rw [mem_sorted, mem_sorted, members]

/-- Disjunctions that are sorted into the same list hold together. -/
theorem any_eq_of_sorted_eq
    {left right : List Threshold}
    (equal : sorted left = sorted right)
    (holds : Threshold → Bool) :
    left.any holds = right.any holds := by
  have members := List.toFinset.ext_iff.mp (sorted_eq_sorted_iff.mp equal)
  rw [Bool.eq_iff_iff, List.any_eq_true, List.any_eq_true]
  exact exists_congr fun threshold =>
    and_congr_left fun _ => members threshold

end Threshold

namespace ThresholdForm

theorem distinctFrom_sublist
    (seen : List (List Threshold))
    (form : ThresholdForm) :
    (distinctFrom seen form).Sublist form := by
  induction form generalizing seen with
  | nil => exact .slnil
  | cons disjunction rest inductionHypothesis =>
      simp only [distinctFrom]
      split
      next repeated => exact .cons _ (inductionHypothesis seen)
      next new => exact .cons_cons _ (inductionHypothesis _)

theorem distinct_sublist (form : ThresholdForm) :
    form.distinct.Sublist form :=
  distinctFrom_sublist [] form

/-- If all disjunctions seen before hold, the dropped ones do as well. -/
theorem all_distinctFrom
    {holds : Threshold → Bool}
    {seen : List (List Threshold)}
    (form : ThresholdForm)
    (seenHold : ∀ disjunction : List Threshold,
      Threshold.sorted disjunction ∈ seen → disjunction.any holds = true) :
    (distinctFrom seen form).all (·.any holds) = form.all (·.any holds) := by
  induction form generalizing seen with
  | nil => rfl
  | cons disjunction rest inductionHypothesis =>
      simp only [distinctFrom]
      split
      next repeated =>
        rw [inductionHypothesis seenHold, List.all_cons,
          seenHold disjunction repeated, Bool.true_and]
      next new =>
        rw [List.all_cons, List.all_cons]
        cases value : disjunction.any holds with
        | false => rfl
        | true =>
            congr 1
            apply inductionHypothesis
            intro other otherSeen
            rcases List.mem_cons.mp otherSeen with same | before
            · rw [Threshold.any_eq_of_sorted_eq same, value]
            · exact seenHold other before

/-- Whatever the thresholds are taken to mean, dropping repeated disjunctions
keeps the meaning of a form. -/
theorem all_distinct
    (holds : Threshold → Bool)
    (form : ThresholdForm) :
    form.distinct.all (·.any holds) = form.all (·.any holds) :=
  all_distinctFrom form (by simp)

end ThresholdForm
end OrderEncoding
