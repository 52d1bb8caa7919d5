import OrderEncoding.Proofs.Formula.Extension
import OrderEncoding.Solving.Session

/-!
# Excluding a model

The clause that excludes a full model is over registered atoms.  It holds in the
truth assignments that differ from the model at an atom that counts: any atom, or
any order atom when solutions alone are blocked.
-/

namespace OrderEncoding

/-- Whether an atom counts when a model is blocked. -/
def Blocking.Counts (blocking : Blocking) (atom : Atom) : Prop :=
  blocking = .fullAssignment ∨ atom.isSelector = false

instance (blocking : Blocking) : DecidablePred blocking.Counts :=
  fun atom => inferInstanceAs
    (Decidable (blocking = .fullAssignment ∨ atom.isSelector = false))

theorem blocks_iff
    {blocking : Blocking}
    {literal : Literal} :
    Session.blocks blocking literal = true ↔ blocking.Counts literal.atom := by
  simp [Session.blocks, Blocking.Counts]

theorem Literal.eval_negated
    (truth : Atom → Bool)
    (literal : Literal) :
    literal.negated.eval truth = !literal.eval truth := by
  cases known : truth literal.atom with
  | false => cases sign : literal.positive <;> simp [eval, negated, known, sign]
  | true => cases sign : literal.positive <;> simp [eval, negated, known, sign]

namespace Formula

/-! ## Blocking clauses -/

/-- A literal is the opposite of the one that a signed number denotes. -/
def Opposes (formula : Formula) (number : Int) (literal : Literal) : Prop :=
  ∃ position, number.natAbs = position + 1 ∧
    formula.atoms[position]? = some literal.atom ∧
    literal.positive = decide (number < 0)

/-- A clause blocks a model when it consists of the opposites of its literals, in
order, as far as their atoms count. -/
def Blocks
    (formula : Formula)
    (blocking : Blocking)
    (numbers : List Int)
    (clause : Clause) : Prop :=
  ∃ opposites, List.Forall₂ formula.Opposes numbers opposites ∧
    clause = opposites.filter fun literal => blocking.Counts literal.atom

theorem opposes_negated_iff
    {formula : Formula}
    {number : Int}
    {literal : Literal} :
    formula.Opposes number literal.negated ↔
      formula.literalOf number = .ok literal := by
  rw [literalOf_eq_ok_iff, Opposes]
  refine exists_congr fun position => and_congr_right fun size =>
    and_congr_right fun _ => ?_
  have signs : decide (number < 0) = !decide (0 < number) := by
    rw [← decide_not, decide_eq_decide]
    omega
  rw [Literal.negated, signs, Bool.not_inj_iff]

/-- The clause that is made for a model blocks it. -/
theorem blocks_of_blockingClause
    {formula : Formula}
    {blocking : Blocking}
    {numbers : List Int}
    {clause : Clause}
    (made : Session.blockingClause blocking formula numbers = .ok clause) :
    formula.Blocks blocking numbers clause := by
  obtain ⟨literals, denoted, rfl⟩ := Results.map_eq_ok_iff.mp made
  refine ⟨literals.map Literal.negated, ?_, ?_⟩
  · rw [List.forall₂_map_right_iff]
    exact (Results.mapM_eq_ok_iff.mp denoted).imp fun _ _ =>
      opposes_negated_iff.mpr
  · rw [List.filter_map]
    refine congrArg (List.map Literal.negated) (List.filter_congr ?_)
    intro literal _
    rw [Bool.eq_iff_iff, blocks_iff, Function.comp_apply, decide_eq_true_iff,
      Literal.negated]

/-- What blocks a model depends on the numbers of the atoms only. -/
theorem Blocks.congr
    {formula other : Formula}
    (sameAtoms : formula.atoms = other.atoms)
    {blocking : Blocking}
    {numbers : List Int}
    {clause : Clause}
    (blocks : formula.Blocks blocking numbers clause) :
    other.Blocks blocking numbers clause := by
  obtain ⟨opposites, opposing, made⟩ := blocks
  refine ⟨opposites, opposing.imp fun number literal opposes => ?_, made⟩
  rwa [Opposes, sameAtoms] at opposes

theorem Blocks.registered
    {formula : Formula}
    {blocking : Blocking}
    {numbers : List Int}
    {clause : Clause}
    (blocks : formula.Blocks blocking numbers clause) :
    ∀ literal ∈ clause, literal.atom ∈ formula.atoms := by
  obtain ⟨opposites, opposing, rfl⟩ := blocks
  intro literal member
  have opposite := (List.mem_filter.mp member).1
  clear member
  induction opposing with
  | nil => contradiction
  | cons first _ inductionHypothesis =>
      rcases List.mem_cons.mp opposite with rfl | later
      · obtain ⟨position, _, found, _⟩ := first
        exact List.mem_of_getElem? found
      · exact inductionHypothesis later

/-! ## Models that blocking clauses exclude -/

/-- A clause over the atoms of a formula holds exactly in the truth assignments
that differ from a given one at an atom that counts. -/
structure Excludes
    (formula : Formula)
    (blocking : Blocking)
    (truth : Atom → Bool)
    (clause : Clause) : Prop where
  registered : ∀ literal ∈ clause, literal.atom ∈ formula.atoms
  eval_iff : ∀ other, Clause.eval other clause = true ↔
    ∃ atom ∈ formula.atoms, blocking.Counts atom ∧ other atom ≠ truth atom

/-- When solutions alone are blocked, a clause excludes all truth assignments that
agree on the order atoms. -/
theorem Excludes.eval_eq_false
    {formula : Formula}
    {blocking : Blocking}
    {truth other : Atom → Bool}
    {clause : Clause}
    (excludes : formula.Excludes blocking truth clause)
    (projected : blocking = .projected)
    (agree : ∀ name bound, .order name bound ∈ formula.atoms →
      other (.order name bound) = truth (.order name bound)) :
    Clause.eval other clause = false := by
  rw [Bool.eq_false_iff, Ne, excludes.eval_iff]
  rintro ⟨atom, registered, counts, different⟩
  cases atom with
  | order name bound => exact different (agree name bound registered)
  | selector => exact counts.elim (fun full => nomatch projected.symm.trans full) nofun

/-- A full model in any order lists the true literals in some order. -/
theorem exists_mapM_literalOf
    {formula : Formula}
    {truth : Atom → Bool}
    {numbers : List Int}
    (same : numbers.Perm (formula.signedModel truth)) :
    ∃ literals, numbers.mapM formula.literalOf = .ok literals ∧
      literals.Perm (formula.trueLiterals truth) := by
  have denoted := Results.mapM_eq_ok_iff.mp
    (mapM_literalOf_signedModel formula truth)
  obtain ⟨literals, related, perm⟩ := List.perm_comp_forall₂ same denoted
  exact ⟨literals, Results.mapM_eq_ok_iff.mpr related, perm⟩

/-- The clause that blocks a full model excludes it. -/
theorem exists_blockingClause
    {formula : Formula}
    {truth : Atom → Bool}
    {numbers : List Int}
    (same : numbers.Perm (formula.signedModel truth))
    (blocking : Blocking) :
    ∃ clause, Session.blockingClause blocking formula numbers = .ok clause ∧
      formula.Excludes blocking truth clause := by
  obtain ⟨literals, denoted, perm⟩ := exists_mapM_literalOf same
  have made : Session.blockingClause blocking formula numbers =
      .ok ((literals.filter (Session.blocks blocking)).map Literal.negated) :=
    Results.map_eq_ok_iff.mpr ⟨literals, denoted, rfl⟩
  refine ⟨_, made, (blocks_of_blockingClause made).registered, fun other => ?_⟩
  simp only [Clause.eval, List.any_map, List.any_filter, List.any_eq_true,
    Function.comp_apply, Literal.eval_negated, Bool.and_eq_true, blocks_iff,
    perm.mem_iff, Bool.not_eq_true', trueLiterals, List.mem_map,
    exists_exists_and_eq_and]
  simp only [Literal.eval, beq_eq_false_iff_ne]

end Formula
end OrderEncoding
