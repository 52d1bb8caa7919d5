import Mathlib.Data.Set.Basic
import OrderEncoding.Proofs.Formula.Operations
import OrderEncoding.Proofs.Solving.Decoding

/-!
# Decoding by the least values

Of the numbers that are decoded, only the set of the order atoms that they make true
matters.  It does not matter in which order the numbers stand, how often they are
repeated, and which negative literals and selectors are among them.  Decoding them
one after the other, with a table of the least values found so far, gives the same.
-/

namespace OrderEncoding

namespace Formula

/-- Every number stands for an atom of a formula or for its negation. -/
def InRange (formula : Formula) (numbers : List Int) : Prop :=
  ∀ number ∈ numbers, 1 ≤ number.natAbs ∧ number.natAbs ≤ formula.atoms.length

/-- A number is the positive number of the order atom of a variable and a bound. -/
def NumbersOrder
    (formula : Formula)
    (name : String)
    (bound number : Int) :
    Prop :=
  ∃ position : Nat, number = position + 1 ∧
    formula.atoms[position]? = some (.order name bound)

/-- The bounds of a variable whose order atoms some numbers make true. -/
def trueBounds (formula : Formula) (numbers : List Int) (name : String) : Set Int :=
  { bound | ∃ number ∈ numbers, formula.NumbersOrder name bound number }

theorem numbersOrder_iff
    {formula : Formula}
    {name : String}
    {bound number : Int} :
    formula.NumbersOrder name bound number ↔
      formula.literalOf number = .ok ⟨true, .order name bound⟩ := by
  rw [literalOf_eq_ok_iff]
  refine exists_congr fun position => ?_
  simp only [eq_comm (a := true), decide_eq_true_iff]
  constructor
  · rintro ⟨rfl, found⟩
    exact ⟨by omega, found, by omega⟩
  · rintro ⟨size, found, positive⟩
    exact ⟨by omega, found⟩

/-- The numbers of a list denote literals exactly when they are in range. -/
theorem inRange_iff_exists_literals
    {formula : Formula}
    {numbers : List Int} :
    formula.InRange numbers ↔
      ∃ literals, numbers.mapM formula.literalOf = .ok literals := by
  simp only [Results.mapM_eq_ok_iff]
  constructor
  · intro inRange
    exact exists_forall₂ fun number member =>
      exists_literalOf_iff.mpr (inRange number member)
  · rintro ⟨literals, denoted⟩ number member
    obtain ⟨literal, _, denotes⟩ := exists_related_of_mem_left denoted member
    exact exists_literalOf_iff.mp ⟨literal, denotes⟩

/-- The true order atoms among literals are those of the numbers that denote
them. -/
theorem mem_trueBounds_iff
    {formula : Formula}
    {numbers : List Int}
    {literals : List Literal}
    (denoted : numbers.mapM formula.literalOf = .ok literals)
    {name : String}
    {bound : Int} :
    bound ∈ formula.trueBounds numbers name ↔
      { positive := true, atom := .order name bound } ∈ literals := by
  rw [Results.mapM_eq_ok_iff] at denoted
  simp only [trueBounds, Set.mem_ofPred_eq, numbersOrder_iff]
  constructor
  · rintro ⟨number, member, denotes⟩
    obtain ⟨literal, literalMem, same⟩ := exists_related_of_mem_left denoted member
    rw [denotes, Except.ok.injEq] at same
    exact same ▸ literalMem
  · intro member
    exact exists_related_of_mem_right denoted member

end Formula

/-- A variable is decoded the same from literals with the same true order atoms. -/
theorem Variable.decode_congr
    {x : Variable}
    {literals others : List Literal}
    (same : ∀ bound, { positive := true, atom := .order x.name bound } ∈ literals ↔
      { positive := true, atom := .order x.name bound } ∈ others) :
    x.decode literals = x.decode others := by
  have minimum : (trueOrderValues x.name literals).min? =
      (trueOrderValues x.name others).min? := by
    ext value
    simp only [List.min?_eq_some_iff, mem_trueOrderValues, same]
  rw [decode, minimum, decode]

namespace Problem

/-- A binding gives a variable the least of its true bounds, which lies in its
domain. -/
structure LeastInDomain
    (formula : Formula)
    (numbers : List Int)
    (x : Variable)
    (binding : Binding) :
    Prop where
  name : binding.name = x.name
  least : IsLeast (formula.trueBounds numbers x.name) binding.value
  inside : x.Contains binding.value

theorem leastInDomain_iff
    {formula : Formula}
    {numbers : List Int}
    {literals : List Literal}
    (denoted : numbers.mapM formula.literalOf = .ok literals)
    {x : Variable}
    {binding : Binding} :
    LeastInDomain formula numbers x binding ↔ x.decode literals = .ok binding := by
  have sameBounds : formula.trueBounds numbers x.name =
      { bound | { positive := true, atom := .order x.name bound } ∈ literals } :=
    Set.ext fun _ => Formula.mem_trueBounds_iff denoted
  rw [Variable.decode_eq_ok_iff, ← sameBounds]
  exact ⟨fun ⟨name, least, inside⟩ => ⟨name, least, inside⟩,
    fun ⟨name, least, inside⟩ => ⟨name, least, inside⟩⟩

/-- When numbers are decoded, and to what. -/
theorem decode_eq_ok_iff
    {problem : Problem}
    {formula : Formula}
    {numbers : List Int}
    {solution : Solution} :
    problem.decode formula numbers = .ok solution ↔
      formula.InRange numbers ∧
        List.Forall₂ (LeastInDomain formula numbers) problem.vars
          solution.bindings := by
  rw [decode, Results.bind_eq_ok_iff, Formula.inRange_iff_exists_literals]
  constructor
  · rintro ⟨literals, denoted, rest⟩
    obtain ⟨bindings, bound, same⟩ := Results.bind_eq_ok_iff.mp rest
    obtain rfl := Except.ok.inj same
    rw [Results.mapM_eq_ok_iff] at bound
    exact ⟨⟨literals, denoted⟩, bound.imp fun _ _ =>
      (leastInDomain_iff denoted).mpr⟩
  · rintro ⟨⟨literals, denoted⟩, least⟩
    have bound : problem.vars.mapM (Variable.decode · literals) =
        .ok solution.bindings :=
      Results.mapM_eq_ok_iff.mpr
        (least.imp fun _ _ => (leastInDomain_iff denoted).mp)
    exact ⟨literals, denoted, Results.bind_eq_ok_iff.mpr ⟨_, bound, rfl⟩⟩

/-- Numbers are decoded if they are in range and every variable has a least true
bound, which lies in its domain. -/
theorem exists_decode_iff
    {problem : Problem}
    {formula : Formula}
    {numbers : List Int} :
    (∃ solution, problem.decode formula numbers = .ok solution) ↔
      formula.InRange numbers ∧ ∀ x ∈ problem.vars, ∃ value,
        IsLeast (formula.trueBounds numbers x.name) value ∧ x.Contains value := by
  simp only [decode_eq_ok_iff, exists_and_left]
  refine and_congr_right fun _ => ?_
  constructor
  · rintro ⟨solution, bound⟩ x declared
    obtain ⟨binding, _, taken⟩ := exists_related_of_mem_left bound declared
    exact ⟨binding.value, taken.least, taken.inside⟩
  · intro values
    have exists_binding : ∀ x ∈ problem.vars,
        ∃ binding, LeastInDomain formula numbers x binding := by
      intro x declared
      obtain ⟨value, least, inside⟩ := values x declared
      exact ⟨{ name := x.name, value }, rfl, least, inside⟩
    obtain ⟨bindings, bound⟩ := exists_forall₂ exists_binding
    exact ⟨{ bindings }, bound⟩

/-- Numbers in range with the same true bounds are decoded the same, also when they
are not decoded to a solution. -/
theorem decode_congr
    {problem : Problem}
    {formula : Formula}
    {numbers others : List Int}
    (inRange : formula.InRange numbers)
    (othersInRange : formula.InRange others)
    (same : ∀ x ∈ problem.vars,
      formula.trueBounds numbers x.name = formula.trueBounds others x.name) :
    problem.decode formula numbers = problem.decode formula others := by
  obtain ⟨literals, denoted⟩ := Formula.inRange_iff_exists_literals.mp inRange
  obtain ⟨otherLiterals, othersDenoted⟩ :=
    Formula.inRange_iff_exists_literals.mp othersInRange
  have bindings : problem.vars.mapM (Variable.decode · literals) =
      problem.vars.mapM (Variable.decode · otherLiterals) := by
    refine Results.mapM_congr fun x declared => Variable.decode_congr fun bound => ?_
    rw [← Formula.mem_trueBounds_iff denoted, same x declared,
      Formula.mem_trueBounds_iff othersDenoted]
  rw [decode, denoted, decode, othersDenoted]
  exact congrArg (· >>= fun found => .ok (Solution.mk found)) bindings

/-! ## A table of least values -/

/-- Enters a value of a variable into a table, in which each variable has the least
value that was entered. -/
def enterLeast (table : List Binding) (entry : Binding) : List Binding :=
  match table with
  | [] => [entry]
  | first :: rest =>
    if first.name = entry.name then
      { first with value := min first.value entry.value } :: rest
    else
      first :: enterLeast rest entry

/-- Enters the value of a true order atom; other literals are ignored. -/
def enterLiteral (table : List Binding) (literal : Literal) : List Binding :=
  match literal with
  | { positive := true, atom := .order name value } =>
    enterLeast table { name, value }
  | _ => table

/-- The value that a variable has in a table. -/
def entered? (table : List Binding) (name : String) : Option Int :=
  (table.find? (·.name = name)).map Binding.value

/-- The table of the least values, made number by number. -/
def leastValues (formula : Formula) (numbers : List Int) :
    Except Failure (List Binding) :=
  numbers.foldlM (fun table number => do
    let literal ← formula.literalOf number
    return enterLiteral table literal) []

/-- The binding of a variable to its value in a table. -/
def bindEntered (table : List Binding) (x : Variable) : Except Failure Binding :=
  match entered? table x.name with
  | none => .error (.of (.noTrueOrderAtom x.name))
  | some value =>
    if x.Contains value then .ok { name := x.name, value }
    else .error (.of (.valueOutsideDomain x.name value))

/-- The solution of signed numbers, in two passes: through the numbers, and through
the variables. -/
def decodeByTable
    (problem : Problem)
    (formula : Formula)
    (numbers : List Int) :
    Except Failure Solution := do
  let table ← leastValues formula numbers
  let bindings ← problem.vars.mapM (bindEntered table)
  .ok { bindings }

theorem entered?_cons
    (first : Binding)
    (rest : List Binding)
    (name : String) :
    entered? (first :: rest) name =
      if first.name = name then some first.value else entered? rest name := by
  by_cases same : first.name = name <;> simp [entered?, same]

/-- What is entered changes the value of its variable only. -/
theorem entered?_enterLeast
    (table : List Binding)
    (entry : Binding)
    (name : String) :
    entered? (enterLeast table entry) name =
      if entry.name = name then
        some (((entered? table name).map (min · entry.value)).getD entry.value)
      else
        entered? table name := by
  induction table with
  | nil => simp [enterLeast, entered?]
  | cons first rest inductionHypothesis =>
      rw [enterLeast]
      by_cases same : first.name = entry.name
      · rw [if_pos same, entered?_cons, entered?_cons]
        by_cases named : entry.name = name <;> simp [same, named]
      · rw [if_neg same, entered?_cons, entered?_cons, inductionHypothesis]
        by_cases named : entry.name = name
        · simp [named ▸ same, named]
        · simp [named]

theorem trueOrderValues_order_cons
    (name other : String)
    (value : Int)
    (rest : List Literal) :
    trueOrderValues name ({ positive := true, atom := .order other value } :: rest) =
      if other = name then value :: trueOrderValues name rest
      else trueOrderValues name rest := by
  by_cases same : other = name <;> simp [trueOrderValues, same]

/-- A table has the least of the true order values of the literals that were
entered. -/
theorem entered?_foldl
    (literals : List Literal)
    (table : List Binding)
    (name : String) :
    entered? (literals.foldl enterLiteral table) name =
      ((entered? table name).toList ++ trueOrderValues name literals).min? := by
  induction literals generalizing table with
  | nil => cases found : entered? table name <;> simp [trueOrderValues, found]
  | cons literal rest inductionHypothesis =>
      rw [List.foldl_cons, inductionHypothesis]
      obtain ⟨positive, atom⟩ := literal
      cases positive with
      | false => simp [enterLiteral, trueOrderValues]
      | true =>
          cases atom with
          | selector clause position => simp [enterLiteral, trueOrderValues]
          | order other value =>
              rw [enterLiteral, entered?_enterLeast, trueOrderValues_order_cons]
              by_cases same : other = name
              · cases found : entered? table name with
                | none => simp [same]
                | some least =>
                    cases minimum : (trueOrderValues name rest).min? <;>
                      simp [same, minimum, List.min?_cons, Int.min_assoc]
              · simp [same]

/-- Entering numbers one by one enters the literals that they denote. -/
theorem leastValues_eq
    {formula : Formula}
    {numbers : List Int} :
    leastValues formula numbers =
      (numbers.mapM formula.literalOf).map (·.foldl enterLiteral []) := by
  have fromTable : ∀ table : List Binding,
      numbers.foldlM (fun table number => do
        let literal ← formula.literalOf number
        return enterLiteral table literal) table =
      (numbers.mapM formula.literalOf).map (·.foldl enterLiteral table) := by
    induction numbers with
    | nil => exact fun _ => rfl
    | cons first rest inductionHypothesis =>
        intro table
        rw [List.foldlM_cons, List.mapM_cons]
        cases formula.literalOf first with
        | error failure => rfl
        | ok literal =>
            refine (inductionHypothesis (enterLiteral table literal)).trans ?_
            cases denoted : rest.mapM formula.literalOf <;> rfl
  exact fromTable []

/-- Decoding with a table is decoding. -/
theorem decodeByTable_eq_decode
    (problem : Problem)
    (formula : Formula)
    (numbers : List Int) :
    problem.decodeByTable formula numbers = problem.decode formula numbers := by
  rw [decodeByTable, leastValues_eq, decode]
  cases numbers.mapM formula.literalOf with
  | error failure => rfl
  | ok literals =>
      have bindings : ∀ x : Variable,
          bindEntered (literals.foldl enterLiteral []) x = x.decode literals := by
        intro x
        rw [bindEntered, entered?_foldl]
        rfl
      exact congrArg (· >>= fun found => .ok (Solution.mk found))
        (Results.mapM_congr fun x _ => bindings x)

/-- Numbers are decoded exactly when each of them stands for an atom of the formula
or its negation, and every variable has a least bound whose order atom they make
true, which lies in its domain.  The solution lists the variables with these bounds.
Among numbers in range, what becomes of them depends on the bounds that they make
true only, hence on the positive numbers of order atoms.  A table of the least values
gives the same result for all numbers. -/
theorem decode_by_true_bounds
    (problem : Problem)
    (formula : Formula)
    (numbers : List Int) :
    ((∃ solution, problem.decode formula numbers = .ok solution) ↔
      formula.InRange numbers ∧ ∀ x ∈ problem.vars, ∃ value,
        IsLeast (formula.trueBounds numbers x.name) value ∧ x.Contains value) ∧
    (∀ solution, problem.decode formula numbers = .ok solution ↔
      formula.InRange numbers ∧
        List.Forall₂ (LeastInDomain formula numbers) problem.vars
          solution.bindings) ∧
    (∀ others, formula.InRange numbers → formula.InRange others →
      (∀ x ∈ problem.vars,
        formula.trueBounds numbers x.name = formula.trueBounds others x.name) →
      problem.decode formula others = problem.decode formula numbers) ∧
    (∀ others, formula.InRange numbers → formula.InRange others →
      (∀ name bound number, formula.NumbersOrder name bound number →
        (number ∈ numbers ↔ number ∈ others)) →
      problem.decode formula others = problem.decode formula numbers) ∧
    problem.decodeByTable formula numbers = problem.decode formula numbers := by
  refine ⟨exists_decode_iff, fun _ => decode_eq_ok_iff,
    fun others inRange othersInRange same =>
      (decode_congr inRange othersInRange same).symm,
    fun others inRange othersInRange same => ?_,
    problem.decodeByTable_eq_decode formula numbers⟩
  refine (decode_congr inRange othersInRange fun x _ => Set.ext fun bound => ?_).symm
  exact exists_congr fun number => and_congr_left (same x.name bound number)

/-- Numbers in another order, with repetitions, negative literals, a selector and an
atom that is both true and false. -/
theorem decode_by_true_bounds_shuffled :
    let x : Variable := { name := "x", lower := 0, upper := 3 }
    let y : Variable := { name := "y", lower := 0, upper := 1 }
    let problem : Problem := { vars := [x, y] }
    let formula : Formula :=
      { atoms := [.selector 0 0, .order "x" 3, .order "x" 2, .order "y" 0,
          .order "x" 1] }
    let numbers : List Int := [2, 3, 4]
    let others : List Int := [-1, 4, 3, 1, 2, 3, -5, -4]
    formula.InRange numbers ∧ formula.InRange others ∧
      problem.decode formula numbers =
        .ok { bindings := [⟨"x", 2⟩, ⟨"y", 0⟩] } ∧
      problem.decode formula others = problem.decode formula numbers ∧
      problem.decode formula [2, -3] = .error (.of (.noTrueOrderAtom "y")) := by
  intro x y problem formula numbers others
  have inRange : formula.InRange numbers := by unfold Formula.InRange; decide
  have othersInRange : formula.InRange others := by unfold Formula.InRange; decide
  have same : ∀ name bound number, formula.NumbersOrder name bound number →
      (number ∈ numbers ↔ number ∈ others) := by
    rintro name bound _ ⟨position, rfl, found⟩
    match position with
    | 0 => simp [formula] at found
    | 1 | 2 | 3 | 4 => simp [numbers, others]
    | _ + 5 => simp [formula] at found
  have shuffled := (decode_by_true_bounds problem formula numbers).2.2.2.1 others
  exact ⟨inRange, othersInRange, by decide, shuffled inRange othersInRange same,
    by decide⟩

end Problem
end OrderEncoding
