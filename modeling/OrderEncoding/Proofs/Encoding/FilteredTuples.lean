import OrderEncoding.Proofs.Choices
import OrderEncoding.Proofs.Encoding.ExactTuples

/-!
# The tuples of a sum among all tuples

The search for tuples leaves out the beginnings from which the target is out of
reach.  It finds just what is left when all tuples of the ranges are listed and
those of another sum are dropped, in the same order.  So does the search breadth
first in machine arithmetic, whenever it meets no sum that overflows.
-/

namespace OrderEncoding

/-! ## Checked computations -/

/-- What a checked computation gives, if anything, is what the exact one gives. -/
def Gives {α : Type} (checked : Option α) (exact : Id α) : Prop :=
  ∀ value, checked = some value → value = exact

namespace Gives

variable {α β : Type}

theorem pure (value : α) : Gives (Pure.pure value) (Pure.pure value) := by
  rintro _ ⟨⟩
  rfl

theorem check? (value : Int) : Gives (Word.check? value) (Pure.pure value) :=
  fun _ checks => (Word.check?_eq_some_iff.mp checks).2

theorem bind
    {checked : Option α}
    {exact : Id α}
    {checkedNext : α → Option β}
    {exactNext : α → Id β}
    (first : Gives checked exact)
    (next : ∀ value, Gives (checkedNext value) (exactNext value)) :
    Gives (checked >>= checkedNext) (exact >>= exactNext) := by
  intro result gives
  obtain ⟨value, firstGives, nextGives⟩ := Option.bind_eq_some_iff.mp gives
  obtain rfl := first value firstGives
  exact next value result nextGives

theorem mapM
    {checked : α → Option β}
    {exact : α → Id β}
    (each : ∀ element, Gives (checked element) (exact element))
    (elements : List α) :
    Gives (elements.mapM checked) (elements.mapM exact) := by
  induction elements with
  | nil => exact .pure []
  | cons first rest inductionHypothesis =>
      rw [List.mapM_cons, List.mapM_cons]
      exact (each first).bind fun _ => inductionHypothesis.bind fun _ => .pure _

theorem foldlM
    {checked : β → α → Option β}
    {exact : β → α → Id β}
    (each : ∀ state element, Gives (checked state element) (exact state element))
    (elements : List α)
    (start : β) :
    Gives (elements.foldlM checked start) (elements.foldlM exact start) := by
  induction elements generalizing start with
  | nil => exact .pure start
  | cons first rest inductionHypothesis =>
      rw [List.foldlM_cons, List.foldlM_cons]
      exact (each start first).bind fun next => inductionHypothesis next

end Gives

namespace Encoding

/-! ## The search breadth first with checked sums -/

theorem gives_stagesWith (ranges : List (Int × Int)) :
    Gives (stagesWith Word.check? ranges) (stagesWith pure ranges) := by
  induction ranges with
  | nil => exact .pure _
  | cons range rest inductionHypothesis =>
      exact inductionHypothesis.bind fun _ =>
        (Gives.check? _).bind fun _ => (Gives.check? _).bind fun _ => .pure _

theorem gives_extendWith
    (target : Int)
    (stage : Stage)
    (beginning : Beginning)
    (value : Int) :
    Gives (extendWith Word.check? target stage beginning value)
      (extendWith pure target stage beginning value) := by
  refine (Gives.check? _).bind fun sum => (Gives.check? _).bind fun least => ?_
  split
  next tooMuch => exact .pure none
  next notTooMuch =>
    refine (Gives.check? _).bind fun greatest => ?_
    split
    next tooLittle => exact .pure none
    next reachable => exact .pure _

theorem gives_advanceWith
    (target : Int)
    (beginnings : List Beginning)
    (stage : Stage) :
    Gives (advanceWith Word.check? target beginnings stage)
      (advanceWith pure target beginnings stage) := by
  refine (Gives.mapM (fun beginning => ?_) beginnings).bind fun _ => .pure _
  exact Gives.mapM (gives_extendWith target stage beginning) _

theorem gives_tuplesWith
    (ranges : List (Int × Int))
    (target : Int) :
    Gives (tuplesWith Word.check? ranges target)
      (tuplesWith pure ranges target) := by
  refine (gives_stagesWith ranges).bind fun stages => ?_
  exact (Gives.foldlM (gives_advanceWith target) _ _).bind fun _ => .pure _

/-- With integers of any size, the search breadth first finds what the recursion
on the ranges does. -/
theorem tuplesWith_unbounded
    (ranges : List (Int × Int))
    (target : Int) :
    tuplesWith (m := Id) pure ranges target = tuplesWithSum ranges target :=
  tuplesWith_eq_pure (Word.exact_pure _) (Int.le_refl _) target

/-! ## Tuples that are left out -/

/-- All tuples of the ranges, without those of another sum. -/
def filteredTuples (ranges : List (Int × Int)) (target : Int) : List (List Int) :=
  (choices (ranges.map fun range => Interval.values range.1 range.2)).filter
    fun tuple => total tuple = target

theorem filteredTuples_cons
    (range : Int × Int)
    (rest : List (Int × Int))
    (target : Int) :
    filteredTuples (range :: rest) target =
      (Interval.values range.1 range.2).flatMap fun value =>
        (filteredTuples rest (target - value)).map (value :: ·) := by
  simp only [filteredTuples, List.map_cons, choices_cons, List.filter_flatMap,
    List.filter_map]
  refine List.flatMap_congr fun value _ => ?_
  congr 2
  funext others
  rw [Function.comp_apply, total_cons, decide_eq_decide]
  omega

/-- No tuple has a sum that the ranges cannot reach. -/
theorem tuplesWithSum_eq_nil
    {ranges : List (Int × Int)}
    {target : Int}
    (unreachable : ¬(leastSum ranges ≤ target ∧ target ≤ greatestSum ranges)) :
    tuplesWithSum ranges target = [] := by
  rw [List.eq_nil_iff_forall_not_mem]
  intro tuple member
  obtain ⟨within, rfl⟩ := mem_tuplesWithSum.mp member
  exact unreachable ⟨within.leastSum_le_total, within.total_le_greatestSum⟩

/-- Elements for which a function gives nothing can be dropped. -/
theorem flatMap_filter
    {α β : Type}
    {kept : α → Bool}
    {function : α → List β}
    {elements : List α}
    (nothing : ∀ element, kept element = false → function element = []) :
    (elements.filter kept).flatMap function = elements.flatMap function := by
  induction elements with
  | nil => rfl
  | cons first rest inductionHypothesis =>
      cases value : kept first with
      | false => simp [value, nothing first value, inductionHypothesis]
      | true => simp [value, inductionHypothesis]

theorem tuplesWithSum_eq_filteredTuples
    (ranges : List (Int × Int))
    (target : Int) :
    tuplesWithSum ranges target = filteredTuples ranges target := by
  induction ranges generalizing target with
  | nil =>
      by_cases zero : target = 0
      · simp [tuplesWithSum, filteredTuples, zero]
      · simp [tuplesWithSum, filteredTuples, zero, Ne.symm zero]
  | cons range rest inductionHypothesis =>
      obtain ⟨lower, upper⟩ := range
      rw [filteredTuples_cons, tuplesWithSum, ← filter_values, flatMap_filter]
      · exact List.flatMap_congr fun value _ => by rw [inductionHypothesis]
      · -- The values that the recursion leaves out begin no tuple of the sum.
        intro value outside
        rw [decide_eq_false_iff_not] at outside
        rw [tuplesWithSum_eq_nil (by omega), List.map_nil]

/-- The tuples come in lexicographic order, each of them once. -/
theorem pairwise_lex_filteredTuples
    (ranges : List (Int × Int))
    (target : Int) :
    (filteredTuples ranges target).Pairwise (List.Lex (· < ·)) := by
  refine (pairwise_lex_choices fun values member => ?_).filter _
  obtain ⟨range, _, rfl⟩ := List.mem_map.mp member
  exact Interval.pairwise_values range.1 range.2

/-- The search finds the tuples of the ranges in lexicographic order, without those
of another sum: as a recursion on the ranges, breadth first with integers of any
size, and breadth first with machine integers, whenever no sum overflows.  None
does if the spread of the ranges is a machine integer. -/
theorem search_finds_filteredTuples
    (ranges : List (Int × Int))
    (target : Int) :
    tuplesWithSum ranges target = filteredTuples ranges target ∧
      tuplesWith (m := Id) pure ranges target = filteredTuples ranges target ∧
      (∀ tuples, tuplesWith Word.check? ranges target = some tuples →
        tuples = filteredTuples ranges target) ∧
      (spread ranges ≤ Word.greatest →
        tuplesWith Word.check? ranges target =
          some (filteredTuples ranges target)) ∧
      (filteredTuples ranges target).Pairwise (List.Lex (· < ·)) := by
  have recursive := tuplesWithSum_eq_filteredTuples ranges target
  have unbounded := (tuplesWith_unbounded ranges target).trans recursive
  refine ⟨recursive, unbounded, ?_, ?_, pairwise_lex_filteredTuples ranges target⟩
  · intro tuples finds
    exact (gives_tuplesWith ranges target tuples finds).trans unbounded
  · intro bounded
    rw [← recursive]
    exact tuplesWith_eq_pure Word.exact_check? bounded target

example : tuplesWith Word.check? [(-1, 2), (-1, 2)] 1 =
    some [[-1, 2], [0, 1], [1, 0], [2, -1]] := by decide

end Encoding
end OrderEncoding
