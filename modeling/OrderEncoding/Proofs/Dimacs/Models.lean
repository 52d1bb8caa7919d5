import OrderEncoding.Dimacs.Printer
import OrderEncoding.Dimacs.Reader
import OrderEncoding.Proofs.Formula.Numbering
import OrderEncoding.Proofs.Formula.Registration

/-!
# Models of numbered clauses

Solvers are given numbered clauses and answer with full models: one signed
number for each atom.  The full models of a formula's numbered clauses are the
signed numbers of the truth assignments that satisfy the formula, in any order.
-/

namespace OrderEncoding
namespace NumberedClauses

/-- The DIMACS text of numbered clauses, with a comment. -/
def text (numbered : NumberedClauses) (comment : String) : String :=
  Dimacs.preamble comment numbered.atomCount numbered.clauses.length ++
    String.join (numbered.clauses.map Dimacs.clauseLine)

/-- Every number stands for one of the atoms or its negation. -/
def InRange (numbered : NumberedClauses) : Prop :=
  ∀ clause ∈ numbered.clauses, ∀ number ∈ clause,
    number ≠ 0 ∧ number.natAbs ≤ numbered.atomCount

/-- A full satisfying assignment. -/
structure Model (numbered : NumberedClauses) (numbers : List Int) : Prop where
  /-- There is one signed number for each atom. -/
  full : (numbers.map Int.natAbs).Perm (List.range' 1 numbered.atomCount)
  /-- A number of every clause is among them. -/
  holds : ∀ clause ∈ numbered.clauses, ∃ number ∈ clause, number ∈ numbers

/-- Among one signed number for each atom, an atom is either positive or
negative. -/
theorem neg_mem_iff_of_full
    {atomCount : Nat}
    {numbers : List Int}
    (full : (numbers.map Int.natAbs).Perm (List.range' 1 atomCount))
    (size : Nat)
    (positive : 1 ≤ size)
    (bounded : size ≤ atomCount) :
    -(size : Int) ∈ numbers ↔ (size : Int) ∉ numbers := by
  have sizes_nodup : (numbers.map Int.natAbs).Nodup :=
    full.nodup_iff.mpr List.nodup_range'
  constructor
  · intro negative member
    have same := List.inj_on_of_nodup_map sizes_nodup negative member (by omega)
    omega
  · intro absent
    have inRange : size ∈ List.range' 1 atomCount := by
      rw [List.mem_range'_1]
      omega
    obtain ⟨number, member, sameSize⟩ :=
      List.mem_map.mp (full.mem_iff.mpr inRange)
    have different : number ≠ size := fun same => absent (same ▸ member)
    have same : number = -(size : Int) := by omega
    exact same ▸ member

theorem bounds_of_full
    {atomCount : Nat}
    {numbers : List Int}
    (full : (numbers.map Int.natAbs).Perm (List.range' 1 atomCount))
    {number : Int}
    (member : number ∈ numbers) :
    1 ≤ number.natAbs ∧ number.natAbs ≤ atomCount := by
  have inRange := full.mem_iff.mp (List.mem_map_of_mem member)
  rw [List.mem_range'_1] at inRange
  omega

end NumberedClauses

namespace Formula

/-- The numbered clauses of a formula. -/
def numbered (formula : Formula) : NumberedClauses :=
  { atomCount := formula.atoms.length
    clauses := formula.clauses.map (·.map formula.numberAt) }

theorem Indexed.signedClauses_eq_ok
    {formula : Formula}
    (indexed : formula.Indexed)
    {clauses : List Clause}
    (registered : ∀ clause ∈ clauses, ∀ literal ∈ clause,
      literal.atom ∈ formula.atoms)
    (index : Nat) :
    formula.signedClauses index clauses =
      .ok (clauses.map (·.map formula.numberAt)) := by
  induction clauses generalizing index with
  | nil => rfl
  | cons clause rest inductionHypothesis =>
      have numbers : clause.mapM formula.signedNumber =
          .ok (clause.map formula.numberAt) :=
        Results.mapM_eq_ok_map fun literal member =>
          indexed.signedNumber_eq_ok (registered clause (.head _) literal member)
      have others := inductionHypothesis
        (fun other member => registered other (.tail _ member)) (index + 1)
      rw [signedClauses, numbers, others]
      rfl

/-- A well-formed formula is written as its numbered clauses. -/
theorem WellFormed.toDimacs_eq_ok
    {formula : Formula}
    (wellFormed : formula.WellFormed)
    (comment : String) :
    formula.toDimacs comment = .ok (formula.numbered.text comment) := by
  rw [toDimacs, wellFormed.signedClauses_eq_ok wellFormed.registered,
    NumberedClauses.text, numbered, List.length_map]
  rfl

theorem WellFormed.inRange_numbered
    {formula : Formula}
    (wellFormed : formula.WellFormed) :
    formula.numbered.InRange := by
  intro numbers numbersMem number member
  obtain ⟨clause, clauseMem, rfl⟩ := List.mem_map.mp numbersMem
  obtain ⟨literal, literalMem, rfl⟩ := List.mem_map.mp member
  have registered := wellFormed.registered clause clauseMem literal literalMem
  obtain ⟨position, size, found, _⟩ :=
    literalOf_eq_ok_iff.mp (literalOf_numberAt registered)
  have inAtoms : position < formula.atoms.length :=
    (List.getElem?_eq_some_iff.mp found).1
  refine ⟨by omega, ?_⟩
  rw [size]
  exact inAtoms

/-- The number of a literal is in a full model exactly when the literal holds. -/
theorem WellFormed.numberAt_mem_signedModel_iff
    {formula : Formula}
    (wellFormed : formula.WellFormed)
    {truth : Atom → Bool}
    {literal : Literal}
    (registered : literal.atom ∈ formula.atoms) :
    formula.numberAt literal ∈ formula.signedModel truth ↔
      literal.eval truth = true := by
  rw [signedModel_eq_map wellFormed.nodup, List.mem_map]
  constructor
  · rintro ⟨other, otherTrue, sameNumber⟩
    rw [mem_trueLiterals_iff] at otherTrue
    have same := literalOf_numberAt otherTrue.1
    rw [sameNumber, literalOf_numberAt registered, Except.ok.injEq] at same
    exact same ▸ otherTrue.2
  · intro holds
    exact ⟨literal, mem_trueLiterals_iff.mpr ⟨registered, holds⟩, rfl⟩

/-- A truth assignment satisfies a formula when its full model has a number of
every clause. -/
theorem WellFormed.eval_iff_numbers
    {formula : Formula}
    (wellFormed : formula.WellFormed)
    (truth : Atom → Bool) :
    formula.eval truth = true ↔
      ∀ numbers ∈ formula.numbered.clauses,
        ∃ number ∈ numbers, number ∈ formula.signedModel truth := by
  simp only [eval, numbered, List.all_eq_true, List.forall_mem_map,
    Clause.eval, List.any_eq_true]
  simp only [List.mem_map, exists_exists_and_eq_and]
  refine forall₂_congr fun clause clauseMem => exists_congr fun literal =>
    and_congr_right fun literalMem => ?_
  rw [wellFormed.numberAt_mem_signedModel_iff
    (wellFormed.registered clause clauseMem literal literalMem)]

theorem natAbs_signedModel
    (formula : Formula)
    (truth : Atom → Bool) :
    (formula.signedModel truth).map Int.natAbs =
      List.range' 1 formula.atoms.length := by
  refine List.ext_getElem (by simp [signedModel]) ?_
  intro position inModel inRange
  simp only [signedModel, signedPosition, List.map_map, List.getElem_map,
    List.getElem_zipIdx, List.getElem_range', Function.comp_apply]
  split <;> omega

/-- A signed number of a full model is at its atom's position. -/
theorem mem_signedModel_iff
    {formula : Formula}
    {truth : Atom → Bool}
    {number : Int} :
    number ∈ formula.signedModel truth ↔
      ∃ position atom, formula.atoms[position]? = some atom ∧
        signedPosition truth atom position = number := by
  simp only [signedModel, List.mem_map, Prod.exists, List.mem_zipIdx_iff_getElem?]
  exact exists_comm

/-- The truth assignment that makes the atoms true whose numbers are given. -/
def truthFrom (formula : Formula) (numbers : List Int) (atom : Atom) : Bool :=
  decide (((formula.atoms.idxOf atom + 1 : Nat) : Int) ∈ numbers)

theorem truthFrom_eq_true_iff
    {formula : Formula}
    (nodup : formula.atoms.Nodup)
    (numbers : List Int)
    {position : Nat}
    {atom : Atom}
    (found : formula.atoms[position]? = some atom) :
    formula.truthFrom numbers atom = true ↔
      ((position + 1 : Nat) : Int) ∈ numbers := by
  obtain ⟨inAtoms, rfl⟩ := List.getElem?_eq_some_iff.mp found
  rw [truthFrom, decide_eq_true_iff, nodup.idxOf_getElem position inAtoms]

/-- One signed number for each atom is the full model of a truth assignment. -/
theorem exists_signedModel_of_full
    {formula : Formula}
    (nodup : formula.atoms.Nodup)
    {numbers : List Int}
    (full : (numbers.map Int.natAbs).Perm
      (List.range' 1 formula.atoms.length)) :
    ∃ truth, numbers.Perm (formula.signedModel truth) := by
  have isTrueIff : ∀ {position : Nat} {atom}, formula.atoms[position]? = some atom →
      (formula.truthFrom numbers atom = true ↔
        ((position + 1 : Nat) : Int) ∈ numbers) :=
    fun found => truthFrom_eq_true_iff nodup numbers found
  have numbers_nodup : numbers.Nodup :=
    (full.nodup_iff.mpr List.nodup_range').of_map
  have model_nodup : (formula.signedModel (formula.truthFrom numbers)).Nodup := by
    refine List.Nodup.of_map Int.natAbs ?_
    rw [natAbs_signedModel]
    exact List.nodup_range'
  refine ⟨formula.truthFrom numbers,
    (List.perm_ext_iff_of_nodup numbers_nodup model_nodup).mpr ?_⟩
  intro number
  rw [mem_signedModel_iff]
  constructor
  · intro member
    obtain ⟨positive, bounded⟩ := NumberedClauses.bounds_of_full full member
    obtain ⟨position, size⟩ := Nat.exists_eq_add_of_le' positive
    have inAtoms : position < formula.atoms.length := by omega
    have found := List.getElem?_eq_getElem inAtoms
    have opposite := NumberedClauses.neg_mem_iff_of_full full
      (position + 1) (by omega) (by omega)
    refine ⟨_, _, found, ?_⟩
    rcases (by omega : number = ((position + 1 : Nat) : Int) ∨
        number = -((position + 1 : Nat) : Int)) with rfl | rfl
    · rw [signedPosition, if_pos ((isTrueIff found).mpr member), Int.natCast_add_one]
    · rw [signedPosition, if_neg, Int.natCast_add_one]
      exact fun isTrue => opposite.mp member ((isTrueIff found).mp isTrue)
  · rintro ⟨position, atom, found, rfl⟩
    have inAtoms := (List.getElem?_eq_some_iff.mp found).1
    have opposite := NumberedClauses.neg_mem_iff_of_full full
      (position + 1) (by omega) (by omega)
    rw [signedPosition, ← Int.natCast_add_one]
    split
    next isTrue => exact (isTrueIff found).mp isTrue
    next isFalse =>
      exact opposite.mpr fun member => isFalse ((isTrueIff found).mpr member)

/-- The full models of a formula's numbered clauses are the full models of the
truth assignments that satisfy the formula. -/
theorem WellFormed.model_numbered_iff
    {formula : Formula}
    (wellFormed : formula.WellFormed)
    {numbers : List Int} :
    formula.numbered.Model numbers ↔
      ∃ truth, formula.eval truth = true ∧
        numbers.Perm (formula.signedModel truth) := by
  constructor
  · rintro ⟨full, holds⟩
    obtain ⟨truth, same⟩ := exists_signedModel_of_full wellFormed.nodup full
    refine ⟨truth, (wellFormed.eval_iff_numbers truth).mpr ?_, same⟩
    simpa only [same.mem_iff] using holds
  · rintro ⟨truth, holds, same⟩
    refine ⟨?_, ?_⟩
    · exact natAbs_signedModel formula truth ▸ same.map Int.natAbs
    · simpa only [same.mem_iff] using (wellFormed.eval_iff_numbers truth).mp holds

/-- Numbered clauses without a model are those of a formula without one. -/
theorem WellFormed.eval_eq_false
    {formula : Formula}
    (wellFormed : formula.WellFormed)
    (noModel : ∀ numbers, ¬formula.numbered.Model numbers)
    (truth : Atom → Bool) :
    formula.eval truth = false := by
  rw [Bool.eq_false_iff]
  intro holds
  exact noModel _ (wellFormed.model_numbered_iff.mpr ⟨truth, holds, .refl _⟩)

end Formula
end OrderEncoding
