import Mathlib.Data.Finset.Powerset
import OrderEncoding.Proofs.Formula.Blocking

/-!
# Counting the models of a formula

The models of a formula over registered atoms are counted as the sets of atoms
that are true in one.  Blocking tells two models apart when they differ at an
atom that counts; the clause that excludes a model makes the classes of such
models fewer by exactly one.
-/

namespace OrderEncoding
namespace Formula

/-- The truth assignment in which exactly some atoms are true. -/
def truthIn (trueAtoms : Finset Atom) (atom : Atom) : Bool :=
  decide (atom ∈ trueAtoms)

/-- The sets of true atoms of the models of a formula. -/
def modelSets (formula : Formula) : Finset (Finset Atom) :=
  formula.atoms.toFinset.powerset.filter fun trueAtoms =>
    formula.eval (truthIn trueAtoms) = true

/-- The atoms of a formula that are true. -/
def trueAtoms (formula : Formula) (truth : Atom → Bool) : Finset Atom :=
  formula.atoms.toFinset.filter fun atom => truth atom = true

theorem truthIn_trueAtoms
    {formula : Formula}
    {truth : Atom → Bool}
    {atom : Atom}
    (registered : atom ∈ formula.atoms) :
    truthIn (formula.trueAtoms truth) atom = truth atom := by
  simp [truthIn, trueAtoms, registered]

/-- A model of a formula is counted by its true atoms. -/
theorem WellFormed.trueAtoms_mem_modelSets_iff
    {formula : Formula}
    (wellFormed : formula.WellFormed)
    (truth : Atom → Bool) :
    formula.trueAtoms truth ∈ formula.modelSets ↔ formula.eval truth = true := by
  have same : formula.eval (truthIn (formula.trueAtoms truth)) =
      formula.eval truth :=
    wellFormed.eval_congr fun atom registered => truthIn_trueAtoms registered
  rw [modelSets, Finset.mem_filter, Finset.mem_powerset, same]
  exact and_iff_right (Finset.filter_subset _ _)

theorem card_modelSets_le (formula : Formula) :
    formula.modelSets.card ≤ 2 ^ formula.atoms.length := by
  calc formula.modelSets.card
      ≤ formula.atoms.toFinset.powerset.card := Finset.card_filter_le _ _
    _ = 2 ^ formula.atoms.toFinset.card := Finset.card_powerset _
    _ ≤ 2 ^ formula.atoms.length :=
        Nat.pow_le_pow_right (by omega) formula.atoms.toFinset_card_le

theorem trueAtoms_truthIn
    {formula : Formula}
    {trueAtoms : Finset Atom}
    (registered : trueAtoms ⊆ formula.atoms.toFinset) :
    formula.trueAtoms (truthIn trueAtoms) = trueAtoms := by
  ext atom
  rw [Formula.trueAtoms, Finset.mem_filter, truthIn, decide_eq_true_iff]
  exact and_iff_right_of_imp fun member => registered member

end Formula

/-! ## Models as far as blocking tells them apart -/

/-- The atoms among some that count when a model is blocked. -/
def Blocking.counted (blocking : Blocking) (atoms : Finset Atom) : Finset Atom :=
  atoms.filter blocking.Counts

namespace Formula

theorem counted_trueAtoms_eq_iff
    {formula : Formula}
    {blocking : Blocking}
    {truth other : Atom → Bool} :
    blocking.counted (formula.trueAtoms truth) =
        blocking.counted (formula.trueAtoms other) ↔
      ∀ atom ∈ formula.atoms, blocking.Counts atom → truth atom = other atom := by
  simp only [Finset.ext_iff, Blocking.counted, trueAtoms, Finset.mem_filter,
    List.mem_toFinset]
  refine forall_congr' fun atom => ⟨fun same registered counts => ?_,
    fun agree => ?_⟩
  · rw [Bool.eq_iff_iff]
    simpa [registered, counts] using same
  · constructor
    · rintro ⟨⟨registered, holds⟩, counts⟩
      exact ⟨⟨registered, (agree registered counts).symm.trans holds⟩, counts⟩
    · rintro ⟨⟨registered, holds⟩, counts⟩
      exact ⟨⟨registered, (agree registered counts).trans holds⟩, counts⟩

/-- The models of a formula, as far as blocking tells them apart. -/
def classes (blocking : Blocking) (formula : Formula) : Finset (Finset Atom) :=
  formula.modelSets.image blocking.counted

theorem WellFormed.mem_classes_iff
    {formula : Formula}
    (wellFormed : formula.WellFormed)
    {blocking : Blocking}
    {set : Finset Atom} :
    set ∈ formula.classes blocking ↔
      ∃ truth, formula.eval truth = true ∧
        blocking.counted (formula.trueAtoms truth) = set := by
  rw [classes, Finset.mem_image]
  constructor
  · rintro ⟨trueAtoms, model, rfl⟩
    rw [modelSets, Finset.mem_filter, Finset.mem_powerset] at model
    exact ⟨truthIn trueAtoms, model.2, by rw [trueAtoms_truthIn model.1]⟩
  · rintro ⟨truth, holds, rfl⟩
    exact ⟨_, (wellFormed.trueAtoms_mem_modelSets_iff truth).mpr holds, rfl⟩

theorem WellFormed.classes_eq_empty
    {formula : Formula}
    (wellFormed : formula.WellFormed)
    (noModel : ∀ truth, formula.eval truth = false)
    (blocking : Blocking) :
    formula.classes blocking = ∅ := by
  rw [Finset.eq_empty_iff_forall_notMem]
  intro set member
  obtain ⟨truth, holds, _⟩ := wellFormed.mem_classes_iff.mp member
  rw [noModel truth] at holds
  contradiction

theorem card_classes_le
    (formula : Formula)
    (blocking : Blocking) :
    (formula.classes blocking).card ≤ 2 ^ formula.atoms.length :=
  Nat.le_trans Finset.card_image_le formula.card_modelSets_le

/-- The clause that excludes a model excludes its class, and no other one. -/
theorem WellFormed.card_classes_withClause
    {formula : Formula}
    (wellFormed : formula.WellFormed)
    {blocking : Blocking}
    {truth : Atom → Bool}
    (holds : formula.eval truth = true)
    {clause : Clause}
    (excludes : formula.Excludes blocking truth clause) :
    ((formula.withClause clause).classes blocking).card + 1 =
      (formula.classes blocking).card := by
  have registeredClass : blocking.counted (formula.trueAtoms truth) ∈
      formula.classes blocking :=
    wellFormed.mem_classes_iff.mpr ⟨truth, holds, rfl⟩
  have remaining : (formula.withClause clause).classes blocking =
      (formula.classes blocking).erase
        (blocking.counted (formula.trueAtoms truth)) := by
    have differs : ∀ other, Clause.eval other clause = true ↔
        blocking.counted (formula.trueAtoms other) ≠
          blocking.counted (formula.trueAtoms truth) := by
      intro other
      rw [excludes.eval_iff, Ne, counted_trueAtoms_eq_iff]
      push Not
      rfl
    ext set
    rw [(wellFormed.withClause excludes.registered).mem_classes_iff,
      Finset.mem_erase, wellFormed.mem_classes_iff]
    simp only [eval_withClause, Bool.and_eq_true, differs]
    constructor
    · rintro ⟨other, ⟨otherHolds, different⟩, rfl⟩
      exact ⟨different, other, otherHolds, rfl⟩
    · rintro ⟨different, other, otherHolds, rfl⟩
      exact ⟨other, ⟨otherHolds, different⟩, rfl⟩
  rw [remaining, Finset.card_erase_add_one registeredClass]

end Formula
end OrderEncoding
