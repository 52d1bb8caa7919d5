import Mathlib.Data.List.ReduceOption
import Mathlib.Data.List.Sort
import OrderEncoding.Proofs.Encoding.ExactSums
import OrderEncoding.Proofs.Encoding.Tuples

/-!
# The search for tuples in exact arithmetic

The search breadth first finds the tuples of a sum in lexicographic order, the
same ones in the same order as the recursion on the ranges.  It meets no sum,
pruned or not, whose absolute value exceeds the spread of the ranges, so an
arithmetic that is exact up to there computes them.
-/

namespace OrderEncoding

variable
  {m : Type → Type} [Monad m] [LawfulMonad m]
  {hold : Int → m Int}
  {limit : Int}

namespace Encoding

/-- The sum of the greatest absolute values of the ranges. -/
def spread (ranges : List (Int × Int)) : Int :=
  total (ranges.map fun range => max (range.1.natAbs : Int) range.2.natAbs)

@[simp] theorem spread_cons
    (range : Int × Int)
    (rest : List (Int × Int)) :
    spread (range :: rest) =
      max (range.1.natAbs : Int) range.2.natAbs + spread rest := rfl

theorem natAbs_leastSum_le_spread (ranges : List (Int × Int)) :
    ((leastSum ranges).natAbs : Int) ≤ spread ranges := by
  induction ranges with
  | nil => exact Int.le_refl 0
  | cons range rest inductionHypothesis =>
      rw [leastSum_cons, spread_cons]
      omega

theorem natAbs_greatestSum_le_spread (ranges : List (Int × Int)) :
    ((greatestSum ranges).natAbs : Int) ≤ spread ranges := by
  induction ranges with
  | nil => exact Int.le_refl 0
  | cons range rest inductionHypothesis =>
      rw [greatestSum_cons, spread_cons]
      omega

/-- The stages of a search through ranges. -/
def stages : List (Int × Int) → List Stage
  | [] => []
  | range :: rest =>
    { range, least := leastSum rest, greatest := greatestSum rest } :: stages rest

theorem stagesWith_eq_pure
    (exact : Word.Exact limit hold)
    {ranges : List (Int × Int)}
    (bounded : spread ranges ≤ limit) :
    stagesWith hold ranges =
      pure (stages ranges, leastSum ranges, greatestSum ranges) := by
  induction ranges with
  | nil => rfl
  | cons range rest inductionHypothesis =>
      have leastBound := natAbs_leastSum_le_spread (range :: rest)
      have greatestBound := natAbs_greatestSum_le_spread (range :: rest)
      rw [leastSum_cons] at leastBound
      rw [greatestSum_cons] at greatestBound
      rw [spread_cons] at bounded leastBound greatestBound
      have leastExact := exact.eq_pure (leastSum rest + range.1) (by omega)
      have greatestExact := exact.eq_pure (greatestSum rest + range.2) (by omega)
      rw [stagesWith, inductionHypothesis (by omega), pure_bind,
        leastSum_cons, greatestSum_cons, Int.add_comm range.1,
        Int.add_comm range.2, stages]
      simp only [leastExact, greatestExact, pure_bind]

/-- A beginning with one more element. -/
def Beginning.next (beginning : Beginning) (value : Int) : Beginning :=
  { elements := beginning.elements ++ [value], sum := beginning.sum + value }

/-- All sums that are tested for an element stay below the spread of what is
left. -/
theorem extendWith_eq_pure
    (exact : Word.Exact limit hold)
    {range : Int × Int}
    {rest : List (Int × Int)}
    {beginning : Beginning}
    (bounded : beginning.sum.natAbs + spread (range :: rest) ≤ limit)
    {value : Int}
    (inside : range.1 ≤ value ∧ value ≤ range.2)
    (target : Int) :
    extendWith hold target
        { range, least := leastSum rest, greatest := greatestSum rest }
        beginning value =
      pure (if target - beginning.sum - greatestSum rest ≤ value ∧
          value ≤ target - beginning.sum - leastSum rest
        then some (beginning.next value) else none) := by
  have leastBound := natAbs_leastSum_le_spread rest
  have greatestBound := natAbs_greatestSum_le_spread rest
  rw [spread_cons] at bounded
  have sumExact := exact.eq_pure (beginning.sum + value) (by omega)
  have leastExact := exact.eq_pure (beginning.sum + value + leastSum rest) (by omega)
  have greatestExact :=
    exact.eq_pure (beginning.sum + value + greatestSum rest) (by omega)
  simp only [extendWith, sumExact, leastExact, greatestExact, pure_bind]
  split
  next tooMuch => rw [if_neg (by omega)]
  next notTooMuch =>
    split
    next tooLittle => rw [if_neg (by omega)]
    next reachable =>
      rw [if_pos (by omega)]
      rfl

/-- The values of an interval that lie in another one. -/
theorem filter_values
    (lower upper least greatest : Int) :
    (Interval.values lower upper).filter
        (fun value => least ≤ value ∧ value ≤ greatest) =
      Interval.values (max lower least) (min upper greatest) := by
  have leftIncreasing := (Interval.pairwise_values lower upper).filter
    (fun value => decide (least ≤ value ∧ value ≤ greatest))
  have rightIncreasing :=
    Interval.pairwise_values (max lower least) (min upper greatest)
  refine leftIncreasing.eq_of_mem_iff rightIncreasing fun value => ?_
  simp only [List.mem_filter, Interval.mem_values, decide_eq_true_eq]
  omega

/-- The beginnings with one more element from which the target can be reached. -/
def advance
    (target : Int)
    (range : Int × Int)
    (rest : List (Int × Int))
    (beginnings : List Beginning) :
    List Beginning :=
  beginnings.flatMap fun beginning =>
    (Interval.values
        (max range.1 (target - beginning.sum - greatestSum rest))
        (min range.2 (target - beginning.sum - leastSum rest))).map
      beginning.next

/-- No beginning has a sum that the ranges to come could lead beyond a limit. -/
def Bounded
    (limit : Int)
    (ranges : List (Int × Int))
    (beginnings : List Beginning) : Prop :=
  ∀ beginning ∈ beginnings, beginning.sum.natAbs + spread ranges ≤ limit

theorem Bounded.advance
    {range : Int × Int}
    {rest : List (Int × Int)}
    {beginnings : List Beginning}
    (bounded : Bounded limit (range :: rest) beginnings)
    (target : Int) :
    Bounded limit rest (advance target range rest beginnings) := by
  intro extended member
  obtain ⟨beginning, beginningMem, extendedMem⟩ := List.mem_flatMap.mp member
  obtain ⟨value, valueMem, rfl⟩ := List.mem_map.mp extendedMem
  have before := bounded beginning beginningMem
  rw [Interval.mem_values] at valueMem
  rw [spread_cons] at before
  rw [Beginning.next]
  dsimp only
  omega

theorem advanceWith_eq_pure
    (exact : Word.Exact limit hold)
    {range : Int × Int}
    {rest : List (Int × Int)}
    {beginnings : List Beginning}
    (bounded : Bounded limit (range :: rest) beginnings)
    (target : Int) :
    advanceWith hold target beginnings
        { range, least := leastSum rest, greatest := greatestSum rest } =
      pure (advance target range rest beginnings) := by
  have extended : ∀ beginning ∈ beginnings,
      (Interval.values range.1 range.2).mapM (extendWith hold target
          { range, least := leastSum rest, greatest := greatestSum rest }
          beginning) =
        pure ((Interval.values range.1 range.2).map fun value =>
          if target - beginning.sum - greatestSum rest ≤ value ∧
              value ≤ target - beginning.sum - leastSum rest
          then some (beginning.next value) else none) :=
    fun beginning member => mapM_eq_pure_map fun value valueMem =>
      extendWith_eq_pure exact (bounded beginning member)
        (Interval.mem_values.mp valueMem) target
  rw [advanceWith, mapM_eq_pure_map extended, pure_bind, advance,
    List.flatMap_map]
  congr 2
  funext beginning
  rw [← filter_values, List.reduceOption, List.filterMap_map,
    ← List.filterMap_eq_map, List.filterMap_filter]
  congr 1
  funext value
  simp

/-- The tuples of the beginnings that can still be completed are those that
begin with one of them. -/
theorem foldlM_advanceWith_eq_pure
    (exact : Word.Exact limit hold)
    {ranges : List (Int × Int)}
    {beginnings : List Beginning}
    (bounded : Bounded limit ranges beginnings)
    (target : Int) :
    (do
      let completed ← (stages ranges).foldlM (advanceWith hold target) beginnings
      return (completed.filter (·.sum = target)).map Beginning.elements) =
    (pure (beginnings.flatMap fun beginning =>
      (tuplesWithSum ranges (target - beginning.sum)).map
        (beginning.elements ++ ·)) : m (List (List Int))) := by
  induction ranges generalizing beginnings with
  | nil =>
      rw [stages, List.foldlM_nil, pure_bind]
      congr 1
      induction beginnings with
      | nil => rfl
      | cons first rest inductionHypothesis =>
          have restBounded : Bounded limit [] rest :=
            fun beginning member => bounded beginning (.tail _ member)
          have ends : (first.sum = target) ↔ target - first.sum = 0 := by omega
          rw [List.flatMap_cons, ← inductionHypothesis restBounded,
            tuplesWithSum, List.filter_cons]
          simp only [decide_eq_true_eq, ends]
          split <;> simp
  | cons range rest inductionHypothesis =>
      obtain ⟨lower, upper⟩ := range
      rw [stages, List.foldlM_cons, advanceWith_eq_pure exact bounded, pure_bind,
        inductionHypothesis (bounded.advance target), advance,
        List.flatMap_assoc]
      congr 2
      funext beginning
      rw [tuplesWithSum, List.map_flatMap, List.flatMap_map]
      congr 1
      funext value
      simp [Beginning.next, Int.sub_sub]

theorem tuplesWith_eq_pure
    (exact : Word.Exact limit hold)
    {ranges : List (Int × Int)}
    (bounded : spread ranges ≤ limit)
    (target : Int) :
    tuplesWith hold ranges target = pure (tuplesWithSum ranges target) := by
  have initially : Bounded limit ranges [⟨[], 0⟩] := by
    intro beginning member
    obtain rfl := List.mem_singleton.mp member
    simpa using bounded
  rw [tuplesWith, stagesWith_eq_pure exact bounded, pure_bind]
  simp only [foldlM_advanceWith_eq_pure exact initially]
  simp

end Encoding
end OrderEncoding
