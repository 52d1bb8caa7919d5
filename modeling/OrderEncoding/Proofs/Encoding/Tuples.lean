import Mathlib.Data.List.Forall2
import OrderEncoding.Encoding.Tuples

/-!
# Members of the tuples of a given sum

The search for tuples finds those whose elements lie in their ranges and add up
to the target.  What it leaves out cannot reach the target.
-/

namespace OrderEncoding
namespace Encoding

/-- The elements of a tuple lie in the ranges at their places. -/
def Within (tuple : List Int) (ranges : List (Int × Int)) : Prop :=
  List.Forall₂ (fun value range => range.1 ≤ value ∧ value ≤ range.2)
    tuple ranges

@[simp] theorem leastSum_cons
    (range : Int × Int)
    (rest : List (Int × Int)) :
    leastSum (range :: rest) = range.1 + leastSum rest := rfl

@[simp] theorem greatestSum_cons
    (range : Int × Int)
    (rest : List (Int × Int)) :
    greatestSum (range :: rest) = range.2 + greatestSum rest := rfl

theorem Within.leastSum_le_total
    {tuple : List Int}
    {ranges : List (Int × Int)}
    (within : Within tuple ranges) :
    leastSum ranges ≤ total tuple := by
  induction within with
  | nil => exact Int.le_refl 0
  | cons first rest inductionHypothesis =>
      simp only [leastSum_cons, total_cons]
      omega

theorem Within.total_le_greatestSum
    {tuple : List Int}
    {ranges : List (Int × Int)}
    (within : Within tuple ranges) :
    total tuple ≤ greatestSum ranges := by
  induction within with
  | nil => exact Int.le_refl 0
  | cons first rest inductionHypothesis =>
      simp only [greatestSum_cons, total_cons]
      omega

theorem mem_tuplesWithSum
    {ranges : List (Int × Int)}
    {target : Int}
    {tuple : List Int} :
    tuple ∈ tuplesWithSum ranges target ↔
      Within tuple ranges ∧ total tuple = target := by
  induction ranges generalizing target tuple with
  | nil =>
      simp only [tuplesWithSum, Within, List.forall₂_nil_right_iff]
      split
      next zero => simp +contextual [zero]
      next nonzero =>
        simp only [List.not_mem_nil, false_iff, not_and]
        rintro rfl sum
        exact nonzero sum.symm
  | cons range rest inductionHypothesis =>
      obtain ⟨lower, upper⟩ := range
      simp only [tuplesWithSum, List.mem_flatMap, Interval.mem_values,
        List.mem_map, inductionHypothesis, Within,
        List.forall₂_cons_right_iff]
      constructor
      · rintro ⟨value, bounds, others, ⟨within, sum⟩, rfl⟩
        refine ⟨⟨value, others, ?_, within, rfl⟩, ?_⟩
        · omega
        · rw [total_cons]
          omega
      · rintro ⟨⟨value, others, bounds, within, rfl⟩, sum⟩
        have least := Within.leastSum_le_total within
        have greatest := Within.total_le_greatestSum within
        rw [total_cons] at sum
        refine ⟨value, ?_, others, ⟨within, ?_⟩, rfl⟩ <;> omega

/-- Values above the lower ends of ranges exceed them by their number. -/
theorem leastSum_add_length_le
    {values : List Int}
    {ranges : List (Int × Int)}
    (above : List.Forall₂
      (fun value range => range.1 < value ∧ value ≤ range.2) values ranges) :
    leastSum ranges + values.length ≤ total values := by
  induction above with
  | nil => exact Int.le_refl 0
  | cons first rest inductionHypothesis =>
      simp only [leastSum_cons, total_cons, List.length_cons]
      omega

/-- Below values that lie above the lower ends of ranges there is a tuple of
every sum that the ranges admit, as long as the values reach further. -/
theorem exists_within_below
    {values : List Int}
    {ranges : List (Int × Int)}
    (above : List.Forall₂
      (fun value range => range.1 < value ∧ value ≤ range.2) values ranges)
    (target : Int)
    (reachable : leastSum ranges ≤ target)
    (exceeded : target + values.length ≤ total values) :
    ∃ tuple, Within tuple ranges ∧ total tuple = target ∧
      List.Forall₂ (· < ·) tuple values := by
  induction above generalizing target with
  | nil =>
      refine ⟨[], .nil, ?_, .nil⟩
      simp only [leastSum, List.map_nil, total_nil, List.length_nil]
        at reachable exceeded ⊢
      omega
  | @cons value range values ranges bounds rest inductionHypothesis =>
      obtain ⟨lower, upper⟩ := range
      simp only [leastSum_cons, total_cons, List.length_cons]
        at reachable exceeded bounds
      -- The first element takes as much of the target as the rest can spare.
      obtain ⟨first, firstIs⟩ :
          ∃ first, first = min (value - 1) (target - leastSum ranges) := ⟨_, rfl⟩
      have spared : ∃ tuple, Within tuple ranges ∧
          total tuple = target - first ∧ List.Forall₂ (· < ·) tuple values := by
        by_cases taken : value - 1 ≤ target - leastSum ranges
        · exact inductionHypothesis _ (by omega) (by omega)
        · refine inductionHypothesis _ (by omega) ?_
          have least := leastSum_add_length_le rest
          omega
      obtain ⟨others, within, sum, below⟩ := spared
      refine ⟨first :: others, .cons ?_ within, ?_, .cons ?_ below⟩
      · dsimp only
        omega
      · rw [total_cons]
        omega
      · omega

end Encoding
end OrderEncoding
