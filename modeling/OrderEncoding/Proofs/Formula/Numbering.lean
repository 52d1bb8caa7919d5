import Mathlib.Data.List.Perm.Basic
import OrderEncoding.Proofs.Formula.Registration
import OrderEncoding.Proofs.Results

/-!
# Signed numbers of literals

An atom's number is its position counted from one.  A truth assignment of the
atoms has a full model: one signed number for each atom.
-/

namespace OrderEncoding
namespace Formula

/-- What a signed number denotes. -/
theorem literalOf_eq_ok_iff
    {formula : Formula}
    {number : Int}
    {literal : Literal} :
    formula.literalOf number = .ok literal ↔
      ∃ position, number.natAbs = position + 1 ∧
        formula.atoms[position]? = some literal.atom ∧
        literal.positive = decide (0 < number) := by
  unfold literalOf
  obtain ⟨positive, atom⟩ := literal
  split
  next zero => simp [zero]
  next position size =>
    have unique : ∀ other, number.natAbs = other + 1 ↔ other = position := by
      omega
    simp only [unique, exists_eq_left]
    cases found : formula.atoms[position]? with
    | none => simp
    | some registered =>
        simp only [Except.ok.injEq, Literal.mk.injEq, Option.some.injEq]
        exact ⟨fun ⟨sign, same⟩ => ⟨same, sign.symm⟩,
          fun ⟨same, sign⟩ => ⟨sign.symm, same⟩⟩

/-- The signed number of the atom at a position, counted from zero. -/
def signedPosition (truth : Atom → Bool) (atom : Atom) (position : Nat) : Int :=
  if truth atom then (position : Int) + 1 else -((position : Int) + 1)

/-- The full model of a truth assignment: a signed number for each atom. -/
def signedModel (formula : Formula) (truth : Atom → Bool) : List Int :=
  formula.atoms.zipIdx.map fun (atom, position) =>
    signedPosition truth atom position

/-- The literals that a truth assignment makes true, one for each atom. -/
def trueLiterals (formula : Formula) (truth : Atom → Bool) : List Literal :=
  formula.atoms.map fun atom => { positive := truth atom, atom }

theorem mem_trueLiterals_iff
    {formula : Formula}
    {truth : Atom → Bool}
    {literal : Literal} :
    literal ∈ formula.trueLiterals truth ↔
      literal.atom ∈ formula.atoms ∧ literal.eval truth = true := by
  rw [trueLiterals, List.mem_map, Literal.eval, beq_iff_eq]
  constructor
  · rintro ⟨atom, registered, rfl⟩
    exact ⟨registered, rfl⟩
  · rintro ⟨registered, holds⟩
    exact ⟨literal.atom, registered, by rw [holds]⟩

theorem literalOf_signedPosition
    {formula : Formula}
    {position : Nat}
    {atom : Atom}
    (found : formula.atoms[position]? = some atom)
    (truth : Atom → Bool) :
    formula.literalOf (signedPosition truth atom position) =
      .ok { positive := truth atom, atom } := by
  rw [literalOf_eq_ok_iff]
  refine ⟨position, ?_, found, ?_⟩
  · unfold signedPosition
    split <;> omega
  · unfold signedPosition
    cases truth atom with
    | true =>
        rw [if_pos rfl, eq_comm, decide_eq_true_iff]
        omega
    | false =>
        rw [if_neg Bool.false_ne_true, eq_comm, decide_eq_false_iff_not]
        omega

/-- A full model lists the true literals. -/
theorem mapM_literalOf_signedModel
    (formula : Formula)
    (truth : Atom → Bool) :
    (formula.signedModel truth).mapM formula.literalOf =
      .ok (formula.trueLiterals truth) := by
  rw [Results.mapM_eq_ok_iff, signedModel, trueLiterals,
    List.forall₂_map_left_iff, List.forall₂_map_right_iff]
  have entries : ∀ entry ∈ formula.atoms.zipIdx,
      formula.atoms[entry.2]? = some entry.1 := by
    intro entry member
    exact List.mem_zipIdx_iff_getElem?.mp member
  rw [List.forall₂_iff_get]
  refine ⟨List.length_zipIdx, ?_⟩
  intro position inEntries inAtoms
  have found := entries _ (List.getElem_mem inEntries)
  have literal := literalOf_signedPosition found truth
  simpa using literal

/-! ## Numbers of literals -/

/-- The signed number of a literal over registered atoms. -/
def numberAt (formula : Formula) (literal : Literal) : Int :=
  signedPosition (fun _ => literal.positive) literal.atom
    (formula.atoms.idxOf literal.atom)

theorem Indexed.numberOf_eq_ok
    {formula : Formula}
    (indexed : formula.Indexed)
    {atom : Atom}
    (registered : atom ∈ formula.atoms) :
    formula.numberOf atom = .ok (formula.atoms.idxOf atom + 1) := by
  simp only [numberOf, indexed.lookup_numbers, if_pos registered]

theorem Indexed.signedNumber_eq_ok
    {formula : Formula}
    (indexed : formula.Indexed)
    {literal : Literal}
    (registered : literal.atom ∈ formula.atoms) :
    formula.signedNumber literal = .ok (formula.numberAt literal) := by
  rw [signedNumber, indexed.numberOf_eq_ok registered, numberAt, signedPosition]
  rfl

/-- The literal of a literal's number is the literal. -/
theorem literalOf_numberAt
    {formula : Formula}
    {literal : Literal}
    (registered : literal.atom ∈ formula.atoms) :
    formula.literalOf (formula.numberAt literal) = .ok literal :=
  literalOf_signedPosition (List.getElem?_idxOf registered) _

theorem signedModel_eq_map
    {formula : Formula}
    (nodup : formula.atoms.Nodup)
    (truth : Atom → Bool) :
    formula.signedModel truth =
      (formula.trueLiterals truth).map formula.numberAt := by
  refine List.ext_getElem (by simp [signedModel, trueLiterals]) ?_
  intro position inModel inLiterals
  have inAtoms : position < formula.atoms.length := by
    simpa [trueLiterals] using inLiterals
  simp [signedModel, trueLiterals, numberAt, nodup.idxOf_getElem position inAtoms,
    signedPosition]

end Formula
end OrderEncoding
