import Mathlib.Order.Bounds.Defs
import OrderEncoding.Proofs.Pairings
import OrderEncoding.Proofs.Results
import OrderEncoding.Solving.Decoding

/-!
# What models are decoded to

Decoding a model looks at the set of its true order atoms only: a variable has
the least value whose order atom is among them.  A value outside the domain is
refused, so what is decoded lists all variables with values of their domains.
-/

namespace OrderEncoding

theorem mem_trueOrderValues
    {name : String}
    {literals : List Literal}
    {value : Int} :
    value ∈ trueOrderValues name literals ↔
      { positive := true, atom := .order name value } ∈ literals := by
  rw [trueOrderValues, List.mem_filterMap]
  constructor
  · rintro ⟨literal, member, found⟩
    split at found
    next other reached =>
      split at found
      next same =>
        rw [Option.some.injEq] at found
        rwa [← same, ← found]
      next different => contradiction
    next other => contradiction
  · intro member
    exact ⟨_, member, by simp⟩

/-- A variable is decoded to the least value of its true order atoms, if it is in the
domain. -/
theorem Variable.decode_eq_ok_iff
    {x : Variable}
    {literals : List Literal}
    {binding : Binding} :
    x.decode literals = .ok binding ↔
      binding.name = x.name ∧
      IsLeast { bound | { positive := true, atom := .order x.name bound } ∈ literals }
        binding.value ∧
      x.Contains binding.value := by
  have least_iff : ∀ value, (trueOrderValues x.name literals).min? = some value ↔
      IsLeast { bound | { positive := true, atom := .order x.name bound } ∈ literals }
        value := by
    intro value
    simp only [List.min?_eq_some_iff, mem_trueOrderValues]
    rfl
  obtain ⟨name, value⟩ := binding
  simp only [← least_iff, decode]
  cases minimum : (trueOrderValues x.name literals).min? with
  | none => simp
  | some found =>
      by_cases inside : x.Contains found
      · simp only [if_pos inside, Except.ok.injEq, Binding.mk.injEq,
          Option.some.injEq]
        constructor
        · rintro ⟨rfl, rfl⟩
          exact ⟨rfl, rfl, inside⟩
        · rintro ⟨rfl, rfl, _⟩
          exact ⟨rfl, rfl⟩
      · simp only [if_neg inside, reduceCtorEq, Option.some.injEq, false_iff]
        rintro ⟨_, rfl, contained⟩
        exact inside contained

/-- A variable is decoded to the least value of its true order atoms. -/
theorem Variable.decode_eq_ok
    {x : Variable}
    {literals : List Literal}
    {value : Int}
    (atValue : { positive := true, atom := .order x.name value } ∈ literals)
    (least : ∀ bound, { positive := true, atom := .order x.name bound } ∈ literals →
      value ≤ bound)
    (inside : x.Contains value) :
    x.decode literals = .ok { name := x.name, value } :=
  decode_eq_ok_iff.mpr ⟨rfl, ⟨atValue, least⟩, inside⟩

/-- A variable admits a binding of its name to a value of its domain. -/
def Variable.Admits (x : Variable) (binding : Binding) : Prop :=
  binding.name = x.name ∧ x.Contains binding.value

/-- A variable is decoded to a binding that it admits, or not at all. -/
theorem Variable.admits_of_decode
    {x : Variable}
    {literals : List Literal}
    {binding : Binding}
    (decodes : x.decode literals = .ok binding) :
    x.Admits binding := by
  obtain ⟨name, _, inside⟩ := decode_eq_ok_iff.mp decodes
  exact ⟨name, inside⟩

namespace Problem

/-- A solution lists the variables of a problem in the order of their
declarations, each with a value of its domain. -/
def Lists (problem : Problem) (solution : Solution) : Prop :=
  List.Forall₂ Variable.Admits problem.vars solution.bindings

theorem Lists.names_eq
    {problem : Problem}
    {solution : Solution}
    (lists : problem.Lists solution) :
    solution.bindings.map Binding.name = problem.vars.map Variable.name :=
  (map_eq_map_of_forall₂ (fun _ _ admits => admits.1.symm) lists).symm

/-- A model is decoded to a solution that lists the declared variables, whatever
the model is. -/
theorem lists_of_decode
    {problem : Problem}
    {formula : Formula}
    {numbers : List Int}
    {solution : Solution}
    (decodes : problem.decode formula numbers = .ok solution) :
    problem.Lists solution := by
  obtain ⟨literals, _, rest⟩ := Results.bind_eq_ok_iff.mp decodes
  obtain ⟨bindings, bound, same⟩ := Results.bind_eq_ok_iff.mp rest
  obtain rfl := Except.ok.inj same
  exact (Results.mapM_eq_ok_iff.mp bound).imp fun _ _ => Variable.admits_of_decode

end Problem
end OrderEncoding
