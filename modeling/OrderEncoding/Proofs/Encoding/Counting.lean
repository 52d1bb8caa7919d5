import Mathlib.Algebra.BigOperators.Fin
import Mathlib.Data.Fintype.BigOperators
import OrderEncoding.Proofs.Encoding.Models
import OrderEncoding.Proofs.Formula.ModelCount

/-!
# The number of models of an encoding

The order atoms of a model determine its solution.  Its selectors may be any
literals that hold, as long as some are selected in every clause.  So a solution
is described by one class of models when solutions alone are told apart, and by
the product of the numbers of such selections when all models are.
-/

namespace OrderEncoding
namespace Problem

/-! ## Selections of literals -/

/-- The positions of the literals of a clause that hold. -/
def truePositions
    (value : String → Int)
    (clause : List Inequality) : Finset Nat :=
  (clause.findIdxs (Inequality.eval value)).toFinset

theorem mem_truePositions_iff
    {value : String → Int}
    {clause : List Inequality}
    {position : Nat} :
    position ∈ truePositions value clause ↔
      ∃ inequality, clause[position]? = some inequality ∧
        inequality.eval value = true := by
  rw [truePositions, List.mem_toFinset, List.mem_findIdxs_iff_exists_getElem_pos]
  constructor
  · rintro ⟨inRange, holds⟩
    exact ⟨_, List.getElem?_eq_getElem inRange, holds⟩
  · rintro ⟨inequality, found, holds⟩
    obtain ⟨inRange, rfl⟩ := List.getElem?_eq_some_iff.mp found
    exact ⟨inRange, holds⟩

theorem card_truePositions
    (value : String → Int)
    (clause : List Inequality) :
    (truePositions value clause).card =
      clause.countP (Inequality.eval value) := by
  rw [truePositions, List.toFinset_card_of_nodup List.nodup_findIdxs,
    List.length_findIdxs]

/-- The ways to select, in every clause, some literals that hold. -/
def selections
    (problem : Problem)
    (value : String → Int) :
    Finset (Fin problem.clauses.length → Finset Nat) :=
  Fintype.piFinset fun index =>
    (truePositions value problem.clauses[index]).powerset.erase ∅

theorem mem_selections_iff
    {problem : Problem}
    {value : String → Int}
    {selected : Fin problem.clauses.length → Finset Nat} :
    selected ∈ problem.selections value ↔
      ∀ index, selected index ≠ ∅ ∧
        selected index ⊆ truePositions value problem.clauses[index] := by
  simp only [selections, Fintype.mem_piFinset, Finset.mem_erase,
    Finset.mem_powerset]

theorem card_selections
    (problem : Problem)
    (value : String → Int) :
    (problem.selections value).card =
      (problem.clauses.map fun clause =>
        2 ^ clause.countP (Inequality.eval value) - 1).prod := by
  have factor : ∀ clause : List Inequality,
      ((truePositions value clause).powerset.erase ∅).card =
        2 ^ clause.countP (Inequality.eval value) - 1 := by
    intro clause
    rw [Finset.card_erase_of_mem (Finset.empty_mem_powerset _),
      Finset.card_powerset, card_truePositions]
  simp only [selections, Fintype.card_piFinset, factor]
  exact Fin.prod_univ_fun_getElem problem.clauses fun clause =>
    2 ^ clause.countP (Inequality.eval value) - 1

/-! ## Models and selections -/

/-- The truth assignment that describes a valuation and selects given literals. -/
def truthSelecting
    (problem : Problem)
    (value : String → Int)
    (selected : Fin problem.clauses.length → Finset Nat) : Atom → Bool
  | .order name bound => decide (value name ≤ bound)
  | .selector index position =>
    if inRange : index < problem.clauses.length then
      decide (position ∈ selected ⟨index, inRange⟩)
    else false

theorem truthSelecting_selector
    {problem : Problem}
    (value : String → Int)
    (selected : Fin problem.clauses.length → Finset Nat)
    (index : Fin problem.clauses.length)
    (position : Nat) :
    problem.truthSelecting value selected (.selector index position) = true ↔
      position ∈ selected index := by
  rw [truthSelecting, dif_pos index.isLt, decide_eq_true_iff]

/-- A selection of literals that hold goes with every solution. -/
theorem describes_truthSelecting
    {problem : Problem}
    {value : String → Int}
    (inside : problem.Inside value)
    {selected : Fin problem.clauses.length → Finset Nat}
    (selection : selected ∈ problem.selections value) :
    problem.Describes problem.formula (problem.truthSelecting value selected)
      value := by
  rw [mem_selections_iff] at selection
  have holds : ∀ index position, position ∈ selected index →
      ∃ inequality, problem.clauses[index][position]? = some inequality ∧
        inequality.eval value = true :=
    fun index position member => mem_truePositions_iff.mp
      ((selection index).2 member)
  refine ⟨inside, fun name bound _ => decide_eq_true_iff, ?_, ?_⟩
  · intro index clause found
    obtain ⟨inRange, rfl⟩ := List.getElem?_eq_some_iff.mp found
    obtain ⟨position, member⟩ :=
      Finset.nonempty_iff_ne_empty.mpr (selection ⟨index, inRange⟩).1
    obtain ⟨inequality, inequalityAt, _⟩ := holds ⟨index, inRange⟩ position member
    exact ⟨position, (List.getElem?_eq_some_iff.mp inequalityAt).1,
      (truthSelecting_selector value selected ⟨index, inRange⟩ position).mpr
        member⟩
  · intro index clause found position inequality inequalityAt selectedHere
    obtain ⟨inRange, rfl⟩ := List.getElem?_eq_some_iff.mp found
    obtain ⟨other, otherAt, otherHolds⟩ := holds ⟨index, inRange⟩ position
      ((truthSelecting_selector value selected ⟨index, inRange⟩ position).mp
        selectedHere)
    obtain rfl := Option.some.inj (inequalityAt.symm.trans otherAt)
    exact otherHolds

/-- A description selects literals that hold in every clause. -/
theorem Describes.exists_selection
    {problem : Problem}
    (wellFormed : problem.WellFormed)
    {truth : Atom → Bool}
    {value : String → Int}
    (describes : problem.Describes problem.formula truth value) :
    ∃ selected ∈ problem.selections value, ∀ atom ∈ problem.formula.atoms,
      problem.truthSelecting value selected atom = truth atom := by
  let selected (index : Fin problem.clauses.length) : Finset Nat :=
    (truePositions value problem.clauses[index]).filter fun position =>
      truth (.selector index position) = true
  have mem_selected : ∀ (index : Fin problem.clauses.length) (position : Nat),
      position < problem.clauses[index].length →
      (position ∈ selected index ↔ truth (.selector index position) = true) := by
    intro index position inRange
    rw [Finset.mem_filter, mem_truePositions_iff]
    refine and_iff_right_of_imp fun selectedHere => ?_
    have inequalityAt := List.getElem?_eq_getElem inRange
    exact ⟨_, inequalityAt, describes.holds index _
      (List.getElem?_eq_getElem index.isLt) position _ inequalityAt selectedHere⟩
  refine ⟨selected, mem_selections_iff.mpr fun index => ⟨?_, ?_⟩, ?_⟩
  · obtain ⟨position, inRange, selectedHere⟩ :=
      describes.selected index _ (List.getElem?_eq_getElem index.isLt)
    exact Finset.nonempty_iff_ne_empty.mp
      ⟨position, (mem_selected index position inRange).mpr selectedHere⟩
  · exact Finset.filter_subset _ _
  · intro atom registered
    rw [Bool.eq_iff_iff]
    rcases (mem_atoms_formula_iff wellFormed).mp registered with
      ⟨x, _, bound, _, _, rfl⟩ | ⟨index, clause, position, found, inRange, rfl⟩
    · rw [describes.order _ _ registered]
      exact decide_eq_true_iff
    · obtain ⟨inClauses, rfl⟩ := List.getElem?_eq_some_iff.mp found
      exact (truthSelecting_selector value selected ⟨index, inClauses⟩
        position).trans (mem_selected ⟨index, inClauses⟩ position inRange)

/-- Selections whose truth assignments agree on the atoms are the same. -/
theorem selections_eq_of_agree
    {problem : Problem}
    (wellFormed : problem.WellFormed)
    {value : String → Int}
    {selected other : Fin problem.clauses.length → Finset Nat}
    (selection : selected ∈ problem.selections value)
    (otherSelection : other ∈ problem.selections value)
    (agree : ∀ atom ∈ problem.formula.atoms,
      problem.truthSelecting value selected atom =
        problem.truthSelecting value other atom) :
    selected = other := by
  rw [mem_selections_iff] at selection otherSelection
  funext index
  ext position
  by_cases holds : position ∈ truePositions value problem.clauses[index]
  · obtain ⟨inequality, found, _⟩ := mem_truePositions_iff.mp holds
    have registered : .selector index position ∈ problem.formula.atoms :=
      (mem_atoms_formula_iff wellFormed).mpr (.inr ⟨index, _, position,
        List.getElem?_eq_getElem index.isLt,
        (List.getElem?_eq_some_iff.mp found).1, rfl⟩)
    rw [← truthSelecting_selector value selected,
      ← truthSelecting_selector value other, agree _ registered]
  · exact iff_of_false (fun member => holds ((selection index).2 member))
      fun member => holds ((otherSelection index).2 member)

/-! ## Counting -/

/-- A description is of every valuation with the same values of the variables. -/
theorem Describes.congr
    {problem : Problem}
    (wellFormed : problem.WellFormed)
    {truth : Atom → Bool}
    {value other : String → Int}
    (describes : problem.Describes problem.formula truth value)
    (agree : ∀ x ∈ problem.vars, value x.name = other x.name) :
    problem.Describes problem.formula truth other := by
  refine ⟨fun x declared => agree x declared ▸ describes.inside x declared, ?_,
    describes.selected, ?_⟩
  · intro name bound registered
    rcases (mem_atoms_formula_iff wellFormed).mp registered with
      ⟨x, declared, _, _, _, same⟩ | ⟨_, _, _, _, _, same⟩
    · injection same with sameName
      rw [describes.order name bound registered, sameName, agree x declared]
    · contradiction
  · intro index clause found position inequality inequalityAt selected
    have holds := describes.holds index clause found position inequality
      inequalityAt selected
    have proper := wellFormed.inequality (List.mem_of_getElem? found)
      (List.mem_of_getElem? inequalityAt)
    rwa [Inequality.eval, proper.form.eval_congr agree] at holds

/-- Every model describes the values of a listed solution. -/
theorem exists_describes_mem_solutions
    {problem : Problem}
    (wellFormed : problem.WellFormed)
    {truth : Atom → Bool}
    (holds : problem.formula.eval truth = true) :
    ∃ solution ∈ problem.solutions,
      problem.Describes problem.formula truth solution.valuation := by
  obtain ⟨value, describes⟩ :=
    (eval_formula_iff_describes wellFormed truth).mp holds
  refine ⟨problem.solutionOf value, (mem_solutions_iff wellFormed).mpr
    ⟨value, describes.inside, describes.eval_eq_true, rfl⟩, ?_⟩
  exact describes.congr wellFormed fun x declared =>
    (valuation_solutionOf value declared).symm

/-- Descriptions of listed solutions in the same class of models are of the same
one. -/
theorem Describes.eq_of_counted_eq
    {problem : Problem}
    (wellFormed : problem.WellFormed)
    {solution other : Solution}
    (listed : solution ∈ problem.solutions)
    (otherListed : other ∈ problem.solutions)
    {truth otherTruth : Atom → Bool}
    (describes : problem.Describes problem.formula truth solution.valuation)
    (otherDescribes :
      problem.Describes problem.formula otherTruth other.valuation)
    {blocking : Blocking}
    (same : blocking.counted (problem.formula.trueAtoms truth) =
      blocking.counted (problem.formula.trueAtoms otherTruth)) :
    solution = other := by
  obtain ⟨_, _, ofValues⟩ := (mem_solutions_iff_valuation wellFormed).mp listed
  obtain ⟨_, _, otherOfValues⟩ :=
    (mem_solutions_iff_valuation wellFormed).mp otherListed
  rw [← ofValues, ← otherOfValues]
  exact describes.solutionOf_congr wellFormed otherDescribes
    fun _ _ registered =>
      Formula.counted_trueAtoms_eq_iff.mp same _ registered (.inr rfl)

theorem mem_classes_formula_iff
    {problem : Problem}
    (wellFormed : problem.WellFormed)
    {blocking : Blocking}
    {set : Finset Atom} :
    set ∈ problem.formula.classes blocking ↔
      ∃ truth, ∃ solution ∈ problem.solutions,
        problem.Describes problem.formula truth solution.valuation ∧
          blocking.counted (problem.formula.trueAtoms truth) = set := by
  rw [problem.wellFormed_formula.mem_classes_iff]
  constructor
  · rintro ⟨truth, holds, same⟩
    obtain ⟨solution, listed, describes⟩ :=
      exists_describes_mem_solutions wellFormed holds
    exact ⟨truth, solution, listed, describes, same⟩
  · rintro ⟨truth, solution, _, describes, same⟩
    exact ⟨truth, (eval_formula_iff_describes wellFormed truth).mpr
      ⟨_, describes⟩, same⟩

/-- When solutions alone are told apart, every solution is one class of models. -/
theorem card_classes_projected
    {problem : Problem}
    (wellFormed : problem.WellFormed) :
    (problem.formula.classes .projected).card = problem.solutions.length := by
  have describes : ∀ solution ∈ problem.solutions,
      problem.Describes problem.formula
        (problem.truthOf solution.valuation) solution.valuation := by
    intro solution listed
    obtain ⟨inside, holds, _⟩ :=
      (mem_solutions_iff_valuation wellFormed).mp listed
    exact describes_truthOf inside holds _
  rw [← List.toFinset_card_of_nodup problem.nodup_solutions, eq_comm]
  refine Finset.card_bij (fun solution _ => Blocking.counted .projected
    (problem.formula.trueAtoms (problem.truthOf solution.valuation))) ?_ ?_ ?_
  · intro solution member
    have listed := List.mem_toFinset.mp member
    exact (mem_classes_formula_iff wellFormed).mpr
      ⟨_, solution, listed, describes solution listed, rfl⟩
  · intro solution member other otherMember same
    have listed := List.mem_toFinset.mp member
    have otherListed := List.mem_toFinset.mp otherMember
    exact (describes solution listed).eq_of_counted_eq wellFormed listed
      otherListed (describes other otherListed) same
  · intro set member
    obtain ⟨truth, solution, listed, describesAll, rfl⟩ :=
      (mem_classes_formula_iff wellFormed).mp member
    refine ⟨solution, List.mem_toFinset.mpr listed,
      Formula.counted_trueAtoms_eq_iff.mpr ?_⟩
    intro atom registered counts
    cases atom with
    | order name bound =>
        rw [Bool.eq_iff_iff, describesAll.order _ _ registered]
        exact decide_eq_true_iff
    | selector => exact counts.elim nofun nofun

/-- When all models are told apart, every solution is as many classes of models
as there are selections of literals that hold. -/
theorem card_classes_fullAssignment
    {problem : Problem}
    (wellFormed : problem.WellFormed) :
    (problem.formula.classes .fullAssignment).card =
      (problem.solutions.map fun solution =>
        (problem.clauses.map fun clause =>
          2 ^ clause.countP (Inequality.eval solution.valuation) - 1).prod).sum := by
  have describes : ∀ solution ∈ problem.solutions,
      ∀ selected ∈ problem.selections solution.valuation,
        problem.Describes problem.formula
          (problem.truthSelecting solution.valuation selected)
          solution.valuation := by
    intro solution listed selected selection
    obtain ⟨inside, _, _⟩ := (mem_solutions_iff_valuation wellFormed).mp listed
    exact describes_truthSelecting inside selection
  simp only [← card_selections]
  rw [← List.sum_toFinset _ problem.nodup_solutions, ← Finset.card_sigma, eq_comm]
  refine Finset.card_bij (fun described _ => Blocking.counted .fullAssignment
    (problem.formula.trueAtoms
      (problem.truthSelecting described.1.valuation described.2))) ?_ ?_ ?_
  · rintro ⟨solution, selected⟩ member
    obtain ⟨listed, selection⟩ := Finset.mem_sigma.mp member
    rw [List.mem_toFinset] at listed
    exact (mem_classes_formula_iff wellFormed).mpr
      ⟨_, solution, listed, describes solution listed selected selection, rfl⟩
  · rintro ⟨solution, selected⟩ member ⟨other, otherSelected⟩ otherMember same
    obtain ⟨listed, selection⟩ := Finset.mem_sigma.mp member
    obtain ⟨otherListed, otherSelection⟩ := Finset.mem_sigma.mp otherMember
    rw [List.mem_toFinset] at listed otherListed
    obtain rfl : solution = other :=
      (describes solution listed selected selection).eq_of_counted_eq wellFormed
        listed otherListed
        (describes other otherListed otherSelected otherSelection) same
    have agree := Formula.counted_trueAtoms_eq_iff.mp same
    obtain rfl : selected = otherSelected :=
      selections_eq_of_agree wellFormed selection otherSelection
        fun atom registered => agree atom registered (.inl rfl)
    rfl
  · intro set member
    obtain ⟨truth, solution, listed, describesAll, rfl⟩ :=
      (mem_classes_formula_iff wellFormed).mp member
    obtain ⟨selected, selection, agree⟩ :=
      describesAll.exists_selection wellFormed
    refine ⟨⟨solution, selected⟩, Finset.mem_sigma.mpr
      ⟨List.mem_toFinset.mpr listed, selection⟩, ?_⟩
    exact Formula.counted_trueAtoms_eq_iff.mpr fun atom registered _ =>
      agree atom registered

/-- The number of models that stand for the solutions of a problem, as far as
blocking tells them apart.  A solution stands for one, or for one for each way to
select, in every clause, some of its literals that hold. -/
def modelCount (problem : Problem) : Blocking → Nat
  | .projected => problem.solutions.length
  | .fullAssignment =>
    (problem.solutions.map fun solution =>
      (problem.clauses.map fun clause =>
        2 ^ clause.countP (Inequality.eval solution.valuation) - 1).prod).sum

theorem card_classes_formula
    {problem : Problem}
    (wellFormed : problem.WellFormed)
    (blocking : Blocking) :
    (problem.formula.classes blocking).card = problem.modelCount blocking := by
  cases blocking with
  | projected => exact card_classes_projected wellFormed
  | fullAssignment => exact card_classes_fullAssignment wellFormed

end Problem
end OrderEncoding
