import OrderEncoding.Proofs.Encoding.Assembly
import OrderEncoding.Proofs.Formula.Numbering
import OrderEncoding.Proofs.Problem.Reading
import OrderEncoding.Proofs.Problem.Solutions
import OrderEncoding.Proofs.Solving.Decoding

/-!
# The models of an encoding

A truth assignment satisfies the formula of a problem exactly when it describes
a valuation within the domains: its order atoms compare the variables with their
values, and in every clause it selects some literals, all of which hold.
Decoding the full model of such an assignment gives the valuation back.
-/

namespace OrderEncoding
namespace Problem

/-- A truth assignment of the atoms of a formula describes a valuation of the
variables of a problem. -/
structure Describes
    (problem : Problem)
    (formula : Formula)
    (truth : Atom → Bool)
    (value : String → Int) : Prop where
  /-- Every variable has a value of its domain. -/
  inside : problem.Inside value
  /-- An order atom is true exactly at the value and above it. -/
  order : ∀ name bound, .order name bound ∈ formula.atoms →
    (truth (.order name bound) = true ↔ value name ≤ bound)
  /-- Some literal of every clause is selected. -/
  selected : ∀ index clause, problem.clauses[index]? = some clause →
    ∃ position < clause.length, truth (.selector index position) = true
  /-- Selected literals hold. -/
  holds : ∀ index clause, problem.clauses[index]? = some clause →
    ∀ position inequality, clause[position]? = some inequality →
      truth (.selector index position) = true → inequality.eval value = true

/-- The clauses of one clause of a problem demand that some literal is selected,
and that the encodings of the selected ones hold. -/
theorem clauseClauses_hold_iff
    {truth : Atom → Bool}
    {index : Nat}
    {forms : List ThresholdForm} :
    (∀ member ∈ clauseClauses index forms, Clause.eval truth member = true) ↔
      (∃ position < forms.length, truth (.selector index position) = true) ∧
      ∀ position form, forms[position]? = some form →
        truth (.selector index position) = true →
          form.all (·.any (Threshold.holds truth)) = true := by
  simp only [mem_clauseClauses, forall_eq_or_imp]
  refine and_congr ?_ ⟨fun hold position form found selected => ?_, ?_⟩
  · simp [Clause.eval, selectionClause, Literal.eval]
  · rw [List.all_eq_true]
    intro disjunction member
    have holds := hold _ ⟨position, form, found, disjunction, member, rfl⟩
    rw [Clause.eval, List.any_cons, Literal.eval, selected] at holds
    exact Clause.eval_ofThresholds truth disjunction ▸ holds
  · rintro hold _ ⟨position, form, found, disjunction, member, rfl⟩
    rw [Clause.eval, List.any_cons, Literal.eval]
    cases selected : truth (.selector index position) with
    | false => rfl
    | true =>
        have holds := List.all_eq_true.mp (hold position form found selected)
          disjunction member
        exact (Clause.eval_ofThresholds truth disjunction).trans holds

/-- The formula holds when the clauses of every constraint and the axioms of
every variable do. -/
theorem eval_formula_iff
    {problem : Problem}
    {truth : Atom → Bool} :
    problem.formula.eval truth = true ↔
      (∀ index clause, problem.clauses[index]? = some clause →
        (∃ position < clause.length, truth (.selector index position) = true) ∧
        ∀ position inequality, clause[position]? = some inequality →
          truth (.selector index position) = true →
            inequality.thresholdForm.all (·.any (Threshold.holds truth)) =
              true) ∧
      ∀ x ∈ problem.vars, x.axioms.all (·.any (Threshold.holds truth)) =
        true := by
  rw [Formula.eval, clauses_formula, cnf, List.all_append, Bool.and_eq_true,
    List.all_eq_true, List.all_eq_true]
  refine and_congr ?_ ?_
  · simp only [mem_constraintCnf, Nat.zero_add]
    constructor
    · intro hold index clause found
      have holds := clauseClauses_hold_iff.mp fun member memberMem =>
        hold member ⟨index, clause, found, memberMem⟩
      rw [List.length_map] at holds
      refine ⟨holds.1, ?_⟩
      intro position inequality inequalityAt
      exact holds.2 position _ (by rw [List.getElem?_map, inequalityAt]; rfl)
    · rintro hold member ⟨index, clause, found, memberMem⟩
      obtain ⟨someSelected, selectedHold⟩ := hold index clause found
      refine clauseClauses_hold_iff.mpr ⟨?_, ?_⟩ member memberMem
      · rwa [List.length_map]
      · intro position form formAt
        rw [List.getElem?_map, Option.map_eq_some_iff] at formAt
        obtain ⟨inequality, inequalityAt, rfl⟩ := formAt
        exact selectedHold position inequality inequalityAt
  · simp only [axiomClauses, List.mem_flatMap, List.mem_map]
    constructor
    · intro hold x declared
      rw [List.all_eq_true]
      intro disjunction member
      rw [← Clause.eval_ofThresholds]
      exact hold _ ⟨x, declared, disjunction, member, rfl⟩
    · rintro hold _ ⟨x, declared, disjunction, member, rfl⟩
      rw [Clause.eval_ofThresholds]
      exact List.all_eq_true.mp (hold x declared) disjunction member

/-- A truth assignment gives every variable its value. -/
def HasValues
    (problem : Problem)
    (truth : Atom → Bool)
    (value : String → Int) : Prop :=
  ∀ x ∈ problem.vars, x.HasValue truth (value x.name)

/-- Once the variables have values, the encoding of an inequality holds when the
inequality does. -/
theorem HasValues.all_thresholdForm
    {problem : Problem}
    {truth : Atom → Bool}
    {value : String → Int}
    (hasValues : problem.HasValues truth value)
    (inside : problem.Inside value)
    {inequality : Inequality}
    (wellFormed : inequality.WellFormed problem.vars) :
    inequality.thresholdForm.all (·.any (Threshold.holds truth)) =
      inequality.eval value := by
  rw [← Inequality.eval_thresholdForm wellFormed.form.nonzero
    (inside.form wellFormed.form), ThresholdForm.eval, Bool.eq_iff_iff,
    List.all_eq_true, List.all_eq_true]
  apply forall₂_congr
  intro disjunction disjunctionMem
  rw [List.any_eq_true, List.any_eq_true]
  refine exists_congr fun threshold => and_congr_right fun thresholdMem => ?_
  obtain ⟨term, termMem, sameVar, low, high⟩ :=
    Inequality.exists_term_of_mem_thresholdForm wellFormed.form.nonzero
      disjunctionMem thresholdMem
  have meaning := hasValues term.var (wellFormed.form.declared term termMem)
    threshold.bound low high
  rw [Threshold.holds, Literal.eval, Threshold.eval, Threshold.toLiteral,
    sameVar, Bool.eq_iff_iff.mpr (meaning.trans decide_eq_true_iff.symm)]

/-- A description gives the variables their values. -/
theorem Describes.hasValues
    {problem : Problem}
    (wellFormed : problem.WellFormed)
    {truth : Atom → Bool}
    {value : String → Int}
    (describes : problem.Describes problem.formula truth value) :
    problem.HasValues truth value := by
  intro x declared bound low high
  refine describes.order x.name bound ?_
  exact (mem_atoms_formula_iff wellFormed).mpr
    (.inl ⟨x, declared, bound, low, high, rfl⟩)

/-- The models of the formula of a problem are its descriptions of
valuations. -/
theorem eval_formula_iff_describes
    {problem : Problem}
    (wellFormed : problem.WellFormed)
    (truth : Atom → Bool) :
    problem.formula.eval truth = true ↔
      ∃ value, problem.Describes problem.formula truth value := by
  rw [eval_formula_iff]
  constructor
  · rintro ⟨constraints, axioms⟩
    obtain ⟨value, hasDomainValue⟩ :=
      exists_valuation wellFormed.names_nodup fun x declared =>
        (x.axioms_hold_iff_exists_hasValue truth).mp (axioms x declared)
    have inside : problem.Inside value := fun x declared =>
      (hasDomainValue x declared).1
    have hasValues : problem.HasValues truth value := fun x declared =>
      (hasDomainValue x declared).2
    refine ⟨value, inside, ?_, ?_, ?_⟩
    · intro name bound registered
      rcases (mem_atoms_formula_iff wellFormed).mp registered with
        ⟨x, declared, other, low, high, same⟩ | ⟨_, _, _, _, _, same⟩
      · injection same with sameName sameBound
        subst sameName sameBound
        exact hasValues x declared bound low high
      · contradiction
    · exact fun index clause found => (constraints index clause found).1
    · intro index clause found position inequality inequalityAt selected
      rw [← hasValues.all_thresholdForm inside
        (wellFormed.inequality (List.mem_of_getElem? found)
          (List.mem_of_getElem? inequalityAt))]
      exact (constraints index clause found).2 position inequality
        inequalityAt selected
  · rintro ⟨value, describes⟩
    have hasValues := describes.hasValues wellFormed
    constructor
    · intro index clause found
      refine ⟨describes.selected index clause found, ?_⟩
      intro position inequality inequalityAt selected
      rw [hasValues.all_thresholdForm describes.inside
        (wellFormed.inequality (List.mem_of_getElem? found)
          (List.mem_of_getElem? inequalityAt))]
      exact describes.holds index clause found position inequality
        inequalityAt selected
    · intro x declared
      rw [x.axioms_hold_iff_exists_hasValue]
      exact ⟨value x.name, describes.inside x declared, hasValues x declared⟩

/-- The true literals of a description that stand for a value of a variable. -/
theorem Describes.mem_trueLiterals_iff
    {problem : Problem}
    (wellFormed : problem.WellFormed)
    {truth : Atom → Bool}
    {value : String → Int}
    (describes : problem.Describes problem.formula truth value)
    {x : Variable}
    (declared : x ∈ problem.vars)
    {bound : Int} :
    { positive := true, atom := .order x.name bound } ∈
        problem.formula.trueLiterals truth ↔
      value x.name ≤ bound ∧ x.lower - 1 ≤ bound ∧ bound ≤ x.upper := by
  rw [Formula.trueLiterals, List.mem_map]
  constructor
  · rintro ⟨atom, registered, same⟩
    injection same with positive sameAtom
    subst sameAtom
    rcases (mem_atoms_formula_iff wellFormed).mp registered with
      ⟨other, otherDeclared, reached, low, high, same⟩ | ⟨_, _, _, _, _, same⟩
    · injection same with sameName sameBound
      obtain rfl : x = other := List.inj_on_of_nodup_map
        wellFormed.names_nodup declared otherDeclared sameName
      subst sameBound
      exact ⟨(describes.order _ _ registered).mp positive, low, high⟩
    · contradiction
  · rintro ⟨above, low, high⟩
    have registered : .order x.name bound ∈ problem.formula.atoms :=
      (mem_atoms_formula_iff wellFormed).mpr
        (.inl ⟨x, declared, bound, low, high, rfl⟩)
    refine ⟨_, registered, ?_⟩
    rw [(describes.order _ _ registered).mpr above]

/-- Decoding the literals of a description, in any order, gives back its
valuation. -/
theorem Describes.decode_eq_ok
    {problem : Problem}
    (wellFormed : problem.WellFormed)
    {truth : Atom → Bool}
    {value : String → Int}
    (describes : problem.Describes problem.formula truth value)
    {formula : Formula}
    {model : List Int}
    {literals : List Literal}
    (denoted : model.mapM formula.literalOf = .ok literals)
    (sameLiterals : ∀ literal,
      literal ∈ literals ↔ literal ∈ problem.formula.trueLiterals truth) :
    problem.decode formula model = .ok (problem.solutionOf value) := by
  have decoded : problem.vars.mapM (Variable.decode · literals) =
      .ok (problem.vars.map (Binding.of value)) := by
    apply Results.mapM_eq_ok_map
    intro x declared
    obtain ⟨low, high⟩ := describes.inside x declared
    refine Variable.decode_eq_ok ?_ ?_ ⟨low, high⟩
    · rw [sameLiterals, describes.mem_trueLiterals_iff wellFormed declared]
      omega
    · intro bound member
      rw [sameLiterals, describes.mem_trueLiterals_iff wellFormed declared]
        at member
      exact member.1
  exact Results.bind_eq_ok_iff.mpr
    ⟨literals, denoted, Results.bind_eq_ok_iff.mpr ⟨_, decoded, rfl⟩⟩

/-- The truth assignment that describes a valuation and selects all literals
that hold. -/
def truthOf (problem : Problem) (value : String → Int) : Atom → Bool
  | .order name bound => decide (value name ≤ bound)
  | .selector index position =>
    (problem.clauses[index]?.bind (·[position]?)).any (Inequality.eval value)

/-- Every solution is described by a truth assignment. -/
theorem describes_truthOf
    {problem : Problem}
    {value : String → Int}
    (inside : problem.Inside value)
    (holds : problem.eval value = true)
    (formula : Formula) :
    problem.Describes formula (problem.truthOf value) value := by
  refine ⟨inside, fun name bound _ => decide_eq_true_iff, ?_, ?_⟩
  · intro index clause found
    have clauseHolds := List.all_eq_true.mp holds clause
      (List.mem_of_getElem? found)
    obtain ⟨inequality, member, inequalityHolds⟩ := List.any_eq_true.mp clauseHolds
    obtain ⟨position, inRange, rfl⟩ := List.mem_iff_getElem.mp member
    refine ⟨position, inRange, ?_⟩
    simp [truthOf, found, inRange, inequalityHolds]
  · intro index clause found position inequality inequalityAt selected
    simpa [truthOf, found, inequalityAt] using selected

/-- Only solutions are described by truth assignments. -/
theorem Describes.eval_eq_true
    {problem : Problem}
    {formula : Formula}
    {truth : Atom → Bool}
    {value : String → Int}
    (describes : problem.Describes formula truth value) :
    problem.eval value = true := by
  rw [eval, List.all_eq_true]
  intro clause clauseMem
  obtain ⟨index, inClauses, rfl⟩ := List.mem_iff_getElem.mp clauseMem
  have found := List.getElem?_eq_getElem inClauses
  obtain ⟨position, inRange, selected⟩ := describes.selected index _ found
  rw [List.any_eq_true]
  exact ⟨_, List.getElem_mem inRange, describes.holds index _ found position _
    (List.getElem?_eq_getElem inRange) selected⟩

/-- Descriptions that agree on the order atoms are of the same solution. -/
theorem Describes.solutionOf_congr
    {problem : Problem}
    (wellFormed : problem.WellFormed)
    {truth other : Atom → Bool}
    {value otherValue : String → Int}
    (describes : problem.Describes problem.formula truth value)
    (otherDescribes : problem.Describes problem.formula other otherValue)
    (agree : ∀ name bound, .order name bound ∈ problem.formula.atoms →
      truth (.order name bound) = other (.order name bound)) :
    problem.solutionOf value = problem.solutionOf otherValue := by
  have sameValue : ∀ x ∈ problem.vars, value x.name = otherValue x.name := by
    intro x declared
    have below : ∀ bound, x.lower - 1 ≤ bound → bound ≤ x.upper →
        (value x.name ≤ bound ↔ otherValue x.name ≤ bound) := by
      intro bound low high
      have registered : .order x.name bound ∈ problem.formula.atoms :=
        (mem_atoms_formula_iff wellFormed).mpr
          (.inl ⟨x, declared, bound, low, high, rfl⟩)
      rw [← describes.order _ _ registered, agree _ _ registered,
        otherDescribes.order _ _ registered]
    obtain ⟨low, high⟩ := describes.inside x declared
    obtain ⟨otherLow, otherHigh⟩ := otherDescribes.inside x declared
    have atValue := below (value x.name) (by omega) high
    have atOther := below (otherValue x.name) (by omega) otherHigh
    omega
  rw [solutionOf, solutionOf]
  congr 1
  apply List.map_congr_left
  intro x declared
  rw [Binding.of, Binding.of, sameValue x declared]

/-- Descriptions of the same solution agree on the order atoms. -/
theorem Describes.order_congr
    {problem : Problem}
    (wellFormed : problem.WellFormed)
    {truth other : Atom → Bool}
    {value otherValue : String → Int}
    (describes : problem.Describes problem.formula truth value)
    (otherDescribes : problem.Describes problem.formula other otherValue)
    (same : problem.solutionOf value = problem.solutionOf otherValue)
    {name : String}
    {bound : Int}
    (registered : .order name bound ∈ problem.formula.atoms) :
    truth (.order name bound) = other (.order name bound) := by
  rw [Bool.eq_iff_iff, describes.order name bound registered,
    otherDescribes.order name bound registered]
  rcases (mem_atoms_formula_iff wellFormed).mp registered with
    ⟨x, declared, _, _, _, sameAtom⟩ | ⟨_, _, _, _, _, sameAtom⟩
  · injection sameAtom with sameName
    have bindings := List.map_inj_left.mp (Solution.mk.inj same) x declared
    rw [sameName, (Binding.mk.inj bindings).2]
  · contradiction

/-- Decoding the full model of a description gives back its valuation. -/
theorem Describes.decode_signedModel
    {problem : Problem}
    (wellFormed : problem.WellFormed)
    {truth : Atom → Bool}
    {value : String → Int}
    (describes : problem.Describes problem.formula truth value) :
    problem.decode problem.formula (problem.formula.signedModel truth) =
      .ok (problem.solutionOf value) :=
  describes.decode_eq_ok wellFormed
    (Formula.mapM_literalOf_signedModel problem.formula truth) fun _ => .rfl

/-- The encoding of a problem that is read succeeds.  Its models are the truth
assignments that describe a valuation, decoding such a model gives back the
valuation, and the decoded models are the solutions of the problem. -/
theorem encode_exact
    {text : String}
    {problem : Problem}
    (accepted : Problem.read text = .ok problem) :
    ∃ formula, problem.encode = .ok formula ∧
      (∀ truth, formula.eval truth = true ↔
        ∃ value, problem.Describes formula truth value) ∧
      (∀ truth value, problem.Describes formula truth value →
        problem.decode formula (formula.signedModel truth) =
          .ok (problem.solutionOf value)) ∧
      ∀ solution,
        (∃ truth, formula.eval truth = true ∧
          problem.decode formula (formula.signedModel truth) = .ok solution) ↔
        ∃ value, problem.Inside value ∧ problem.eval value = true ∧
          problem.solutionOf value = solution := by
  have wellFormed := wellFormed_of_read accepted
  refine ⟨problem.formula, problem.encode_eq_ok,
    eval_formula_iff_describes wellFormed,
    fun truth value describes => describes.decode_signedModel wellFormed,
    fun solution => ?_⟩
  constructor
  · rintro ⟨truth, holds, decodes⟩
    obtain ⟨value, describes⟩ :=
      (eval_formula_iff_describes wellFormed truth).mp holds
    rw [describes.decode_signedModel wellFormed, Except.ok.injEq] at decodes
    exact ⟨value, describes.inside, describes.eval_eq_true, decodes⟩
  · rintro ⟨value, inside, holds, rfl⟩
    have describes := describes_truthOf inside holds problem.formula
    exact ⟨problem.truthOf value,
      (eval_formula_iff_describes wellFormed _).mpr ⟨value, describes⟩,
      describes.decode_signedModel wellFormed⟩

/-- Two variables, a negated literal and a disjunction: the encoding is exact. -/
theorem encode_exact_two_variables :
    ∃ problem, Problem.read "x 0 2 y -1 1 [x+2*y<=1 -(x!=2)] [y>=0]" =
        .ok problem ∧
      ∃ formula, problem.encode = .ok formula ∧
        ∀ solution,
          (∃ truth, formula.eval truth = true ∧
            problem.decode formula (formula.signedModel truth) =
              .ok solution) ↔
          ∃ value, problem.Inside value ∧ problem.eval value = true ∧
            problem.solutionOf value = solution := by
  let x : Variable := { name := "x", lower := 0, upper := 2 }
  let y : Variable := { name := "y", lower := -1, upper := 1 }
  let sum : LinearForm := { monomials := [⟨x, 1⟩, ⟨y, 2⟩] }
  let problem : Problem :=
    { vars := [x, y]
      clauses :=
        [[⟨sum, 1, true⟩, ⟨.single ⟨x, 1⟩, 1, false⟩],
          [⟨sum, 1, true⟩, ⟨.single ⟨x, 1⟩, 2, true⟩],
          [⟨.single ⟨y, 1⟩, -1, false⟩]] }
  have accepted : Problem.read "x 0 2 y -1 1 [x+2*y<=1 -(x!=2)] [y>=0]" =
      .ok problem := by decide +kernel
  obtain ⟨formula, encodes, _, _, exact⟩ := encode_exact accepted
  exact ⟨problem, accepted, formula, encodes, exact⟩

end Problem
end OrderEncoding
