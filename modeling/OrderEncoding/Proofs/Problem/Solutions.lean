import Mathlib.Logic.Function.Basic
import OrderEncoding.Proofs.Choices
import OrderEncoding.Proofs.Problem.WellFormed

/-!
# The solutions of a problem

The listed solutions of a well-formed problem are the restrictions to its
variables of the valuations within the domains that satisfy all clauses.
-/

namespace OrderEncoding

/-- The binding of a variable to its value. -/
def Binding.of (value : String → Int) (x : Variable) : Binding :=
  { name := x.name, value := value x.name }

/-- The value of a form depends on the values of its variables only. -/
theorem LinearForm.WellFormed.eval_congr
    {scope : List Variable}
    {form : LinearForm}
    (wellFormed : form.WellFormed scope)
    {value other : String → Int}
    (agree : ∀ x ∈ scope, value x.name = other x.name) :
    form.eval value = form.eval other := by
  unfold LinearForm.eval
  refine congrArg total (List.map_congr_left fun term member => ?_)
  rw [Monomial.eval, Monomial.eval, agree _ (wellFormed.declared term member)]

namespace Problem

/-- The values of the declared variables, in the order of declaration. -/
def solutionOf (problem : Problem) (value : String → Int) : Solution :=
  { bindings := problem.vars.map (Binding.of value) }

/-- Values that exist for each of some variables with distinct names make up a
valuation. -/
theorem exists_valuation
    {vars : List Variable}
    (names_nodup : (vars.map Variable.name).Nodup)
    {property : Variable → Int → Prop}
    (values : ∀ x ∈ vars, ∃ value, property x value) :
    ∃ value : String → Int, ∀ x ∈ vars, property x (value x.name) := by
  induction vars with
  | nil => exact ⟨fun _ => 0, by simp⟩
  | cons first rest inductionHypothesis =>
      rw [List.map_cons, List.nodup_cons] at names_nodup
      obtain ⟨value, restHas⟩ := inductionHypothesis names_nodup.2
        fun x member => values x (.tail _ member)
      obtain ⟨firstValue, firstHas⟩ := values first (.head _)
      refine ⟨Function.update value first.name firstValue, ?_⟩
      intro x member
      rcases List.mem_cons.mp member with rfl | inRest
      · rwa [Function.update_self]
      · have otherName : x.name ≠ first.name := fun same =>
          names_nodup.1 (same ▸ List.mem_map_of_mem inRest)
        rw [Function.update_of_ne otherName]
        exact restHas x inRest

/-- Bindings of variables with distinct names come from a valuation. -/
theorem exists_valuation_of_bindings
    {vars : List Variable}
    (names_nodup : (vars.map Variable.name).Nodup)
    {bindings : List Binding}
    (bound : List.Forall₂
      (fun binding x => ∃ value, x.Contains value ∧ ⟨x.name, value⟩ = binding)
      bindings vars) :
    ∃ value : String → Int, bindings = vars.map (Binding.of value) ∧
      ∀ x ∈ vars, x.Contains (value x.name) := by
  induction bound with
  | nil => exact ⟨fun _ => 0, rfl, by simp⟩
  | @cons binding first bindings rest firstBound _ inductionHypothesis =>
      rw [List.map_cons, List.nodup_cons] at names_nodup
      obtain ⟨value, rfl, restInside⟩ := inductionHypothesis names_nodup.2
      obtain ⟨firstValue, firstInside, rfl⟩ := firstBound
      have otherName : ∀ x ∈ rest, x.name ≠ first.name := fun x inRest same =>
        names_nodup.1 (same ▸ List.mem_map_of_mem inRest)
      refine ⟨Function.update value first.name firstValue, ?_, ?_⟩
      · rw [List.map_cons, Binding.of, Function.update_self]
        congr 1
        apply List.map_congr_left
        intro x inRest
        rw [Binding.of, Binding.of, Function.update_of_ne (otherName x inRest)]
      · intro x member
        rcases List.mem_cons.mp member with rfl | inRest
        · rwa [Function.update_self]
        · rw [Function.update_of_ne (otherName x inRest)]
          exact restInside x inRest

theorem mem_assignments_iff
    {problem : Problem}
    (wellFormed : problem.WellFormed)
    {solution : Solution} :
    solution ∈ problem.assignments ↔
      ∃ value, problem.Inside value ∧ solution = problem.solutionOf value := by
  obtain ⟨bindings⟩ := solution
  simp only [assignments, List.mem_map, Solution.mk.injEq, exists_eq_right,
    mem_choices, List.forall₂_map_right_iff, Variable.mem_domain, solutionOf]
  constructor
  · intro bound
    obtain ⟨value, rfl, inside⟩ :=
      exists_valuation_of_bindings wellFormed.names_nodup bound
    exact ⟨value, inside, rfl⟩
  · rintro ⟨value, inside, rfl⟩
    rw [List.forall₂_map_left_iff, List.forall₂_same]
    exact fun x declared => ⟨value x.name, inside x declared, rfl⟩

/-- A solution assigns to a declared variable the value it was made from. -/
theorem valuation_solutionOf
    {problem : Problem}
    (value : String → Int)
    {x : Variable}
    (declared : x ∈ problem.vars) :
    (problem.solutionOf value).valuation x.name = value x.name := by
  simp only [Solution.valuation, Solution.value?, solutionOf, List.find?_map]
  cases found : problem.vars.find?
      ((fun binding => decide (binding.name = x.name)) ∘ Binding.of value) with
  | none =>
      have absent := List.find?_eq_none.mp found x declared
      simp [Binding.of] at absent
  | some other =>
      have matching := List.find?_some found
      have sameName : other.name = x.name := of_decide_eq_true matching
      simp [Binding.of, sameName]

/-- Valuations that agree on the declared variables satisfy the same well-formed
problems. -/
theorem eval_congr
    {problem : Problem}
    (wellFormed : problem.WellFormed)
    {value other : String → Int}
    (agree : ∀ x ∈ problem.vars, value x.name = other x.name) :
    problem.eval value = problem.eval other := by
  rw [Bool.eq_iff_iff]
  simp only [eval, List.all_eq_true, List.any_eq_true]
  refine forall₂_congr fun clause clauseMem => exists_congr fun inequality =>
    and_congr_right fun inequalityMem => ?_
  have proper := wellFormed.inequality clauseMem inequalityMem
  rw [Inequality.eval, Inequality.eval, proper.form.eval_congr agree]

/-- What the listed solutions of a problem are. -/
theorem mem_solutions_iff
    {problem : Problem}
    (wellFormed : problem.WellFormed)
    {solution : Solution} :
    solution ∈ problem.solutions ↔
      ∃ value, problem.Inside value ∧ problem.eval value = true ∧
        solution = problem.solutionOf value := by
  rw [solutions, List.mem_filter, mem_assignments_iff wellFormed]
  have evalSolution : ∀ value,
      problem.eval (problem.solutionOf value).valuation = problem.eval value :=
    fun value => eval_congr wellFormed fun x declared =>
      valuation_solutionOf value declared
  constructor
  · rintro ⟨⟨value, inside, rfl⟩, holds⟩
    exact ⟨value, inside, evalSolution value ▸ holds, rfl⟩
  · rintro ⟨value, inside, holds, rfl⟩
    exact ⟨⟨value, inside, rfl⟩, (evalSolution value).trans holds⟩

/-- A listed solution is the solution that its own values make up. -/
theorem mem_solutions_iff_valuation
    {problem : Problem}
    (wellFormed : problem.WellFormed)
    {solution : Solution} :
    solution ∈ problem.solutions ↔
      problem.Inside solution.valuation ∧
        problem.eval solution.valuation = true ∧
        problem.solutionOf solution.valuation = solution := by
  rw [mem_solutions_iff wellFormed]
  constructor
  · rintro ⟨value, inside, holds, rfl⟩
    have sameValue : ∀ x ∈ problem.vars,
        (problem.solutionOf value).valuation x.name = value x.name :=
      fun x declared => valuation_solutionOf value declared
    refine ⟨fun x declared => ?_, ?_, congrArg Solution.mk ?_⟩
    · rw [sameValue x declared]
      exact inside x declared
    · rw [eval_congr wellFormed sameValue, holds]
    · refine List.map_congr_left fun x declared => ?_
      rw [Binding.of, Binding.of, sameValue x declared]
  · rintro ⟨inside, holds, same⟩
    exact ⟨_, inside, holds, same.symm⟩

/-- Every solution is listed once. -/
theorem nodup_solutions (problem : Problem) : problem.solutions.Nodup := by
  have domains : ∀ bindings ∈ problem.vars.map
      (fun x => x.domain.map (Binding.mk x.name)), bindings.Nodup := by
    intro bindings member
    obtain ⟨x, _, rfl⟩ := List.mem_map.mp member
    exact List.Nodup.map (fun _ _ same => (Binding.mk.inj same).2) x.nodup_domain
  have assignments : problem.assignments.Nodup :=
    (nodup_choices domains).map fun _ _ same => Solution.mk.inj same
  exact assignments.filter _

end Problem
end OrderEncoding
