import OrderEncoding.Proofs.Dimacs.RoundTrip
import OrderEncoding.Proofs.Solving.Answers
import OrderEncoding.Proofs.Solving.Asking
import OrderEncoding.Solving.Search

/-!
# The search is complete

Assuming a literal keeps the truth assignments in which it is true, and taking up
unit clauses keeps all of them.  While the search goes on, the clauses that are
left are over atoms that are not decided yet.  So a model that is found satisfies
all clauses, and none exists if none is found.
-/

namespace OrderEncoding
namespace Search

/-- A signed number is true when the atoms have the given truth values. -/
def Holds (truth : Nat → Bool) (literal : Int) : Prop :=
  truth literal.natAbs = decide (0 < literal)

theorem holds_neg_iff
    {truth : Nat → Bool}
    {literal : Int}
    (nonzero : literal ≠ 0) :
    Holds truth (-literal) ↔ ¬Holds truth literal := by
  have opposite : decide (0 < -literal) = !decide (0 < literal) := by
    rw [← decide_not, decide_eq_decide]
    omega
  rw [Holds, Holds, Int.natAbs_neg, opposite]
  cases truth literal.natAbs <;> simp

/-- Every clause has a literal that is true. -/
def Satisfies (truth : Nat → Bool) (clauses : List (List Int)) : Prop :=
  ∀ clause ∈ clauses, ∃ literal ∈ clause, Holds truth literal

theorem mem_assume
    {literal : Int}
    {clauses : List (List Int)}
    {clause : List Int} :
    clause ∈ assume literal clauses ↔
      ∃ original ∈ clauses, literal ∉ original ∧
        original.filter (· ≠ -literal) = clause := by
  simp [assume, and_assoc]

/-- A literal that is true can be assumed. -/
theorem satisfies_assume_iff
    {truth : Nat → Bool}
    {literal : Int}
    (nonzero : literal ≠ 0)
    (holds : Holds truth literal)
    (clauses : List (List Int)) :
    Satisfies truth (assume literal clauses) ↔ Satisfies truth clauses := by
  constructor
  · intro satisfied clause member
    by_cases present : literal ∈ clause
    · exact ⟨literal, present, holds⟩
    · obtain ⟨other, otherMem, otherHolds⟩ := satisfied _
        (mem_assume.mpr ⟨clause, member, present, rfl⟩)
      exact ⟨other, (List.mem_filter.mp otherMem).1, otherHolds⟩
  · intro satisfied clause member
    obtain ⟨original, originalMem, _, rfl⟩ := mem_assume.mp member
    obtain ⟨other, otherMem, otherHolds⟩ := satisfied original originalMem
    refine ⟨other, List.mem_filter.mpr ⟨otherMem, ?_⟩, otherHolds⟩
    rw [decide_eq_true_iff]
    rintro rfl
    exact (holds_neg_iff nonzero).mp otherHolds holds

/-- A residue holds when its forced literals and its clauses do. -/
structure Residue.Holds (residue : Residue) (truth : Nat → Bool) : Prop where
  forced : ∀ literal ∈ residue.forced, Search.Holds truth literal
  clauses : Satisfies truth residue.clauses

/-- A residue's clauses are over undecided atoms, none of which is forced to be
true and false at once. -/
structure Residue.Over (residue : Residue) (atoms : List Int) : Prop where
  undecided : ∀ clause ∈ residue.clauses, ∀ literal ∈ clause,
    literal ≠ 0 ∧ (literal.natAbs : Int) ∈ atoms
  unforced : ∀ clause ∈ residue.clauses, ∀ literal ∈ residue.forced,
    literal ∉ clause ∧ -literal ∉ clause
  consistent : ∀ literal ∈ residue.forced, -literal ∉ residue.forced

/-- The residue after a unit clause was taken up. -/
def Residue.force (residue : Residue) (literal : Int) : Residue :=
  { forced := literal :: residue.forced
    clauses := assume literal residue.clauses }

theorem findSome?_unitLiteral
    {clauses : List (List Int)}
    {literal : Int}
    (found : clauses.findSome? unitLiteral? = some literal) :
    [literal] ∈ clauses := by
  obtain ⟨clause, member, unit⟩ := List.exists_of_findSome?_eq_some found
  cases clause with
  | nil => contradiction
  | cons first rest =>
      cases rest with
      | nil => 
          obtain rfl : first = literal := by simpa [unitLiteral?] using unit
          exact member
      | cons second others => contradiction

theorem Residue.holds_force_iff
    {residue : Residue}
    {literal : Int}
    (nonzero : literal ≠ 0)
    (unit : [literal] ∈ residue.clauses)
    (truth : Nat → Bool) :
    (residue.force literal).Holds truth ↔ residue.Holds truth := by
  constructor
  · rintro ⟨forced, clauses⟩
    obtain ⟨holds, others⟩ := List.forall_mem_cons.mp forced
    exact ⟨others, (satisfies_assume_iff nonzero holds _).mp clauses⟩
  · rintro ⟨forced, clauses⟩
    obtain ⟨other, member, holds⟩ := clauses _ unit
    obtain rfl := List.mem_singleton.mp member
    exact ⟨List.forall_mem_cons.mpr ⟨holds, forced⟩,
      (satisfies_assume_iff nonzero holds _).mpr clauses⟩

theorem Residue.Over.force
    {residue : Residue}
    {atoms : List Int}
    (isOver : residue.Over atoms)
    {literal : Int}
    (unit : [literal] ∈ residue.clauses) :
    (residue.force literal).Over atoms := by
  refine ⟨?_, ?_, ?_⟩
  · intro clause member other otherMem
    obtain ⟨original, originalMem, _, rfl⟩ := mem_assume.mp member
    exact isOver.undecided original originalMem other
      (List.mem_filter.mp otherMem).1
  · intro clause member other otherForced
    obtain ⟨original, originalMem, absent, rfl⟩ := mem_assume.mp member
    simp only [List.mem_filter, decide_eq_true_eq]
    rcases List.mem_cons.mp otherForced with rfl | old
    · exact ⟨fun both => absent both.1, fun both => both.2 rfl⟩
    · obtain ⟨first, second⟩ := isOver.unforced original originalMem other old
      exact ⟨fun both => first both.1, fun both => second both.1⟩
  · intro other otherForced negatedForced
    have nonzero := (isOver.undecided _ unit literal (.head _)).1
    have fresh : ∀ old ∈ residue.forced, old ≠ literal ∧ -old ≠ literal := by
      intro old oldForced
      simpa using isOver.unforced _ unit old oldForced
    rcases List.mem_cons.mp otherForced with rfl | old
    · rcases List.mem_cons.mp negatedForced with same | negatedOld
      · omega
      · exact (fresh _ negatedOld).2 (Int.neg_neg other)
    · rcases List.mem_cons.mp negatedForced with same | negatedOld
      · exact (fresh other old).2 same
      · exact isOver.consistent other old negatedOld

/-- What taking up unit clauses keeps: the truth assignments in which the residue
holds, and the undecided atoms, over which new forced literals are. -/
theorem Residue.Over.propagate
    {residue : Residue}
    {atoms : List Int}
    (isOver : residue.Over atoms)
    (rounds : Nat) :
    (propagate rounds residue).Over atoms ∧
      (∀ literal ∈ (propagate rounds residue).forced,
        literal ∈ residue.forced ∨ (literal.natAbs : Int) ∈ atoms) ∧
      ∀ truth, (propagate rounds residue).Holds truth ↔ residue.Holds truth := by
  induction rounds generalizing residue with
  | zero => exact ⟨isOver, fun _ => .inl, fun _ => .rfl⟩
  | succ rounds inductionHypothesis =>
      rw [Search.propagate]
      cases found : residue.clauses.findSome? unitLiteral? with
      | none => exact ⟨isOver, fun _ => .inl, fun _ => .rfl⟩
      | some literal =>
          have unit := findSome?_unitLiteral found
          obtain ⟨nonzero, undecided⟩ :=
            isOver.undecided _ unit literal (.head _)
          obtain ⟨nextOver, nextForced, nextHolds⟩ :=
            inductionHypothesis (isOver.force unit)
          refine ⟨nextOver, fun other otherForced => ?_, fun truth =>
            (nextHolds truth).trans (residue.holds_force_iff nonzero unit truth)⟩
          rcases nextForced other otherForced with before | inAtoms
          · rcases List.mem_cons.mp before with rfl | old
            · exact .inr undecided
            · exact .inl old
          · exact .inr inAtoms

/-- An atom whose literal is forced is decided. -/
theorem Residue.Over.tail_of_forced
    {residue : Residue}
    {atom : Int}
    {rest : List Int}
    (isOver : residue.Over (atom :: rest))
    {literal : Int}
    (decides : (literal.natAbs : Int) = atom)
    (forced : literal ∈ residue.forced) :
    residue.Over rest := by
  refine ⟨?_, isOver.unforced, isOver.consistent⟩
  intro clause member other otherMem
  obtain ⟨nonzero, undecided⟩ := isOver.undecided clause member other otherMem
  refine ⟨nonzero, ?_⟩
  rcases List.mem_cons.mp undecided with same | later
  · obtain ⟨absent, negatedAbsent⟩ := isOver.unforced clause member literal forced
    rcases (by omega : other = literal ∨ other = -literal) with rfl | rfl
    · contradiction
    · contradiction
  · exact later

/-- An atom whose literal is assumed is decided. -/
theorem Residue.Over.tail_of_assumed
    {residue : Residue}
    {atom : Int}
    {rest : List Int}
    (isOver : residue.Over (atom :: rest))
    {literal : Int}
    (decides : (literal.natAbs : Int) = atom) :
    Residue.Over { residue with clauses := assume literal residue.clauses }
      rest := by
  refine ⟨?_, ?_, isOver.consistent⟩
  · intro clause member other otherMem
    obtain ⟨original, originalMem, absent, rfl⟩ := mem_assume.mp member
    obtain ⟨inOriginal, different⟩ := List.mem_filter.mp otherMem
    obtain ⟨nonzero, undecided⟩ :=
      isOver.undecided original originalMem other inOriginal
    refine ⟨nonzero, ?_⟩
    rcases List.mem_cons.mp undecided with same | later
    · rcases (by omega : other = literal ∨ other = -literal) with rfl | rfl
      · contradiction
      · simp at different
    · exact later
  · intro clause member other otherForced
    obtain ⟨original, originalMem, _, rfl⟩ := mem_assume.mp member
    obtain ⟨first, second⟩ :=
      isOver.unforced original originalMem other otherForced
    exact ⟨fun both => first (List.mem_filter.mp both).1,
      fun both => second (List.mem_filter.mp both).1⟩

/-- A residue decides an atom by a literal and goes on with the next residue. -/
structure Residue.Decides
    (residue : Residue)
    (atom : Int)
    (rest : List Int)
    (literal : Int)
    (next : Residue) : Prop where
  size : (literal.natAbs : Int) = atom
  isOver : next.Over rest
  forced : ∀ other ∈ next.forced, (other.natAbs : Int) ∈ rest ∨ other = literal ∨
    other ∈ residue.forced ∧ (other.natAbs : Int) ≠ atom
  holds_iff : ∀ truth, Search.Holds truth literal →
    (next.Holds truth ↔ residue.Holds truth)

theorem Residue.Over.decides_of_forced
    {residue : Residue}
    {atom : Int}
    {rest : List Int}
    (isOver : residue.Over (atom :: rest))
    {literal : Int}
    (size : (literal.natAbs : Int) = atom)
    (forced : literal ∈ residue.forced) :
    residue.Decides atom rest literal residue := by
  refine ⟨size, isOver.tail_of_forced size forced, ?_, fun _ _ => .rfl⟩
  intro other otherForced
  by_cases sameAtom : (other.natAbs : Int) = atom
  · have notNegated : other ≠ -literal := by
      rintro rfl
      exact isOver.consistent literal forced otherForced
    exact .inr (.inl (by omega))
  · exact .inr (.inr ⟨otherForced, sameAtom⟩)

theorem Residue.Over.decides_of_assumed
    {residue : Residue}
    {atom : Int}
    {rest : List Int}
    (isOver : residue.Over (atom :: rest))
    (positive : 0 < atom)
    (notForced : atom ∉ residue.forced)
    (notForcedFalse : -atom ∉ residue.forced)
    {literal : Int}
    (size : (literal.natAbs : Int) = atom) :
    residue.Decides atom rest literal (residue.with literal) := by
  obtain ⟨nextOver, nextForced, nextHolds⟩ :=
    (isOver.tail_of_assumed size).propagate
      (assume literal residue.clauses).length
  refine ⟨size, nextOver, ?_, ?_⟩
  · intro other otherForced
    rcases nextForced other otherForced with old | later
    · refine .inr (.inr ⟨old, fun sameAtom => ?_⟩)
      rcases (by omega : other = atom ∨ other = -atom) with rfl | rfl
      · exact notForced old
      · exact notForcedFalse old
    · exact .inl later
  · intro truth holds
    refine (nextHolds truth).trans ?_
    have assumed := satisfies_assume_iff (by omega : literal ≠ 0) holds
      residue.clauses
    exact ⟨fun next => ⟨next.forced, assumed.mp next.clauses⟩,
      fun now => ⟨now.forced, assumed.mpr now.clauses⟩⟩

/-- The ways in which the search passes an atom. -/
theorem findModel_cons
    {residue : Residue}
    {atom : Int}
    {rest : List Int}
    (isOver : residue.Over (atom :: rest))
    (positive : 0 < atom)
    (preferred : Bool) :
    [] ∈ residue.clauses ∧ findModel preferred (atom :: rest) residue = none ∨
    (∃ literal, residue.Decides atom rest literal residue ∧
      literal ∈ residue.forced ∧
      findModel preferred (atom :: rest) residue =
        (findModel preferred rest residue).map (literal :: ·)) ∨
    ∃ literal next other,
      residue.Decides atom rest literal next ∧
      residue.Decides atom rest (-literal) other ∧
      findModel preferred (atom :: rest) residue =
        ((findModel preferred rest next).map (literal :: ·)).or
          ((findModel preferred rest other).map (-literal :: ·)) := by
  by_cases empty : [] ∈ residue.clauses
  · exact .inl ⟨empty, by rw [findModel, if_pos empty]⟩
  refine .inr ?_
  by_cases forced : atom ∈ residue.forced
  · refine .inl ⟨atom, isOver.decides_of_forced (by omega) forced, forced, ?_⟩
    rw [findModel, if_neg empty, if_pos forced]
  by_cases forcedFalse : -atom ∈ residue.forced
  · refine .inl ⟨-atom, isOver.decides_of_forced (by omega) forcedFalse,
      forcedFalse, ?_⟩
    rw [findModel, if_neg empty, if_neg forced, if_pos forcedFalse]
  · refine .inr ⟨if preferred then atom else -atom, _, _,
      isOver.decides_of_assumed positive forced forcedFalse ?_,
      isOver.decides_of_assumed positive forced forcedFalse ?_, ?_⟩
    · split <;> omega
    · split <;> omega
    · simp only [findModel, if_neg empty, if_neg forced, if_neg forcedFalse]
      cases findModel preferred rest
          (residue.with (if preferred then atom else -atom)) with
      | none => rfl
      | some model => rfl

/-- A model that is found begins with a literal of the first atom, and goes on
with a model that is found for the residue that this literal leaves. -/
theorem exists_decides_of_findModel_cons
    {residue : Residue}
    {atom : Int}
    {rest : List Int}
    (isOver : residue.Over (atom :: rest))
    (positive : 0 < atom)
    {preferred : Bool}
    {model : List Int}
    (found : findModel preferred (atom :: rest) residue = some model) :
    ∃ literal others next, residue.Decides atom rest literal next ∧
      findModel preferred rest next = some others ∧
      literal :: others = model := by
  rcases findModel_cons isOver positive preferred with
    ⟨_, none⟩ | ⟨literal, decides, _, step⟩ |
    ⟨literal, next, other, decides, otherDecides, step⟩
  · rw [none] at found
    contradiction
  · rw [step, Option.map_eq_some_iff] at found
    obtain ⟨others, restFound, same⟩ := found
    exact ⟨literal, others, _, decides, restFound, same⟩
  · rw [step, Option.or_eq_some_iff, Option.map_eq_some_iff,
      Option.map_eq_some_iff] at found
    rcases found with ⟨others, restFound, same⟩ | ⟨_, others, restFound, same⟩
    · exact ⟨literal, others, next, decides, restFound, same⟩
    · exact ⟨-literal, others, other, otherDecides, restFound, same⟩

/-- A model that is found has a literal of every atom.  The residue holds where
these and the literals that were forced before are true. -/
theorem findModel_sound
    {preferred : Bool}
    {atoms : List Int}
    (positive : ∀ atom ∈ atoms, 0 < atom)
    {residue : Residue}
    (isOver : residue.Over atoms)
    {model : List Int}
    (found : findModel preferred atoms residue = some model) :
    model.map (fun literal => (literal.natAbs : Int)) = atoms ∧
      ∀ truth, (∀ literal ∈ model, Holds truth literal) →
        (∀ literal ∈ residue.forced, (literal.natAbs : Int) ∉ atoms →
          Holds truth literal) →
        residue.Holds truth := by
  induction atoms generalizing residue model with
  | nil =>
      rw [findModel] at found
      split at found
      next empty => contradiction
      next nonempty =>
        obtain rfl := Option.some.inj found
        refine ⟨rfl, fun truth _ forced => ⟨fun literal member =>
          forced literal member (by simp), fun clause member => ?_⟩⟩
        cases clause with
        | nil => contradiction
        | cons literal others =>
            exact absurd (isOver.undecided _ member literal (.head _)).2 (by simp)
  | cons atom rest inductionHypothesis =>
      obtain ⟨atomPositive, restPositive⟩ := List.forall_mem_cons.mp positive
      obtain ⟨literal, others, next, decides, restFound, rfl⟩ :=
        exists_decides_of_findModel_cons isOver atomPositive found
      obtain ⟨sizes, holds⟩ :=
        inductionHypothesis restPositive decides.isOver restFound
      refine ⟨by rw [List.map_cons, sizes, decides.size], ?_⟩
      intro truth modelHolds forcedHold
      obtain ⟨literalHolds, othersHold⟩ := List.forall_mem_cons.mp modelHolds
      refine (decides.holds_iff truth literalHolds).mp
        (holds truth othersHold fun other otherForced outside => ?_)
      rcases decides.forced other otherForced with later | rfl | ⟨old, different⟩
      · contradiction
      · exact literalHolds
      · exact forcedHold other old
          (List.not_mem_cons_of_ne_of_not_mem different outside)

/-- If no model is found there is none. -/
theorem findModel_complete
    {preferred : Bool}
    {atoms : List Int}
    (positive : ∀ atom ∈ atoms, 0 < atom)
    {residue : Residue}
    (isOver : residue.Over atoms)
    (notFound : findModel preferred atoms residue = none)
    (truth : Nat → Bool) :
    ¬residue.Holds truth := by
  have emptyFails : ∀ {residue : Residue}, [] ∈ residue.clauses →
      ¬residue.Holds truth := by
    intro residue empty holds
    obtain ⟨literal, member, _⟩ := holds.clauses [] empty
    contradiction
  induction atoms generalizing residue with
  | nil =>
      rw [findModel] at notFound
      split at notFound
      next empty => exact emptyFails empty
      next nonempty => contradiction
  | cons atom rest inductionHypothesis =>
      obtain ⟨atomPositive, restPositive⟩ := List.forall_mem_cons.mp positive
      rcases findModel_cons isOver atomPositive preferred with
        ⟨empty, _⟩ | ⟨literal, decides, _, step⟩ |
        ⟨literal, next, other, decides, otherDecides, step⟩
      · exact emptyFails empty
      · rw [step, Option.map_eq_none_iff] at notFound
        exact inductionHypothesis restPositive decides.isOver notFound
      · rw [step, Option.or_eq_none_iff, Option.map_eq_none_iff,
          Option.map_eq_none_iff] at notFound
        have size := decides.size
        intro holds
        by_cases literalHolds : Holds truth literal
        · exact inductionHypothesis restPositive decides.isOver notFound.1
            ((decides.holds_iff truth literalHolds).mpr holds)
        · have negatedHolds := (holds_neg_iff (by omega)).mpr literalHolds
          exact inductionHypothesis restPositive otherDecides.isOver notFound.2
            ((otherDecides.holds_iff truth negatedHolds).mpr holds)

/-! ## Models of numbered clauses -/

/-- The atoms of numbered clauses, as the search passes them. -/
def atomsOf (numbered : NumberedClauses) : List Int :=
  (List.range numbered.atomCount).map fun position : Nat => (position : Int) + 1

theorem mem_atomsOf
    {numbered : NumberedClauses}
    {atom : Int} :
    atom ∈ atomsOf numbered ↔ 0 < atom ∧ atom ≤ numbered.atomCount := by
  rw [atomsOf, List.mem_map]
  constructor
  · rintro ⟨position, member, rfl⟩
    rw [List.mem_range] at member
    omega
  · rintro ⟨positive, bounded⟩
    exact ⟨atom.toNat - 1, by rw [List.mem_range]; omega, by omega⟩

/-- A literal of every atom makes up one signed number for each atom. -/
theorem full_of_sizes
    {numbered : NumberedClauses}
    {numbers : List Int}
    (sizes : numbers.map (fun literal => (literal.natAbs : Int)) =
      atomsOf numbered) :
    (numbers.map Int.natAbs).Perm (List.range' 1 numbered.atomCount) := by
  have natural := congrArg (List.map Int.toNat) sizes
  rw [atomsOf, List.map_map, List.map_map] at natural
  refine .of_eq (Eq.trans natural ?_)
  rw [List.range'_eq_map_range]
  apply List.map_congr_left
  intro position _
  rw [Function.comp_apply]
  omega

/-- The residue that the search starts from. -/
def initial (numbered : NumberedClauses) : Residue :=
  { forced := [], clauses := numbered.clauses }

theorem over_initial
    {numbered : NumberedClauses}
    (inRange : numbered.InRange) :
    (initial numbered).Over (atomsOf numbered) := by
  refine ⟨?_, by simp [initial], by simp [initial]⟩
  intro clause member literal literalMem
  obtain ⟨nonzero, bounded⟩ := inRange clause member literal literalMem
  exact ⟨nonzero, mem_atomsOf.mpr (by omega)⟩

/-- The truth values that signed numbers give to the atoms. -/
def truthOf (numbers : List Int) (size : Nat) : Bool :=
  decide ((size : Int) ∈ numbers)

theorem holds_truthOf_iff
    {atomCount : Nat}
    {numbers : List Int}
    (full : (numbers.map Int.natAbs).Perm (List.range' 1 atomCount))
    {literal : Int}
    (nonzero : literal ≠ 0)
    (bounded : literal.natAbs ≤ atomCount) :
    Holds (truthOf numbers) literal ↔ literal ∈ numbers := by
  rw [Holds, truthOf, decide_eq_decide]
  obtain ⟨size, rfl | rfl⟩ := literal.eq_nat_or_neg
  · have positive : 0 < (size : Int) := by omega
    rw [Int.natAbs_natCast]
    simp only [positive, iff_true]
  · have notPositive : ¬0 < -(size : Int) := by omega
    rw [Int.natAbs_neg, Int.natAbs_natCast] at bounded ⊢
    simp only [notPositive, iff_false]
    exact (NumberedClauses.neg_mem_iff_of_full full size (by omega) bounded).symm

/-- A full model satisfies the residue that the search starts from. -/
theorem holds_initial_of_model
    {numbered : NumberedClauses}
    (inRange : numbered.InRange)
    {numbers : List Int}
    (model : numbered.Model numbers) :
    (initial numbered).Holds (truthOf numbers) := by
  refine ⟨by simp [initial], ?_⟩
  intro clause member
  obtain ⟨literal, literalMem, chosen⟩ := model.holds clause member
  obtain ⟨nonzero, bounded⟩ := inRange clause member literal literalMem
  exact ⟨literal, literalMem,
    (holds_truthOf_iff model.full nonzero bounded).mpr chosen⟩

/-- The search decides whether numbered clauses have a full model, and finds
one. -/
theorem model?_answers
    {numbered : NumberedClauses}
    (inRange : numbered.InRange)
    (preferred : Bool) :
    match model? preferred numbered with
    | none => ∀ numbers, ¬numbered.Model numbers
    | some numbers => numbered.Model numbers := by
  have positive : ∀ atom ∈ atomsOf numbered, 0 < atom :=
    fun atom member => (mem_atomsOf.mp member).1
  obtain ⟨isOver, forced, holds⟩ :=
    (over_initial inRange).propagate (initial numbered).clauses.length
  split
  next notFound =>
    intro numbers model
    exact findModel_complete positive isOver notFound (truthOf numbers)
      ((holds _).mpr (holds_initial_of_model inRange model))
  next numbers found =>
    obtain ⟨sizes, residueHolds⟩ := findModel_sound positive isOver found
    have full := full_of_sizes sizes
    have initialHolds : (initial numbered).Holds (truthOf numbers) := by
      rw [← holds]
      refine residueHolds _ (fun literal member => ?_)
        fun literal literalForced outside => ?_
      · obtain ⟨positive, bounded⟩ :=
          NumberedClauses.bounds_of_full full member
        exact (holds_truthOf_iff full (by omega) bounded).mpr member
      · rcases forced literal literalForced with initially | inAtoms
        · exact absurd initially (by simp [initial])
        · contradiction
    refine ⟨full, ?_⟩
    intro clause member
    obtain ⟨literal, literalMem, literalHolds⟩ := initialHolds.clauses clause member
    obtain ⟨nonzero, bounded⟩ := inRange clause member literal literalMem
    exact ⟨literal, literalMem,
      (holds_truthOf_iff full nonzero bounded).mp literalHolds⟩

/-- What the search writes is a right verdict. -/
theorem exists_read_answer
    {numbered : NumberedClauses}
    (inRange : numbered.InRange)
    (atomsBounded : numbered.atomCount ≤ Word.greatest)
    (preferred : Bool) :
    ∃ verdict, Verdict.read (answer preferred numbered) = .ok verdict ∧
      verdict.Answers numbered := by
  have answers := model?_answers inRange preferred
  cases found : model? preferred numbered with
  | none =>
      rw [found] at answers
      exact ⟨.unsatisfiable, by rw [answer, found]; exact Verdict.read_unsatisfiable,
        answers⟩
  | some numbers =>
      rw [found] at answers
      have proper : ∀ number ∈ numbers, number ≠ 0 ∧ Word.Fits number := by
        intro number member
        obtain ⟨positive, bounded⟩ :=
          NumberedClauses.bounds_of_full answers.full member
        exact ⟨by omega, Word.fits_of_natAbs_le bounded atomsBounded⟩
      refine ⟨.model numbers, ?_, answers⟩
      rw [answer, found]
      simp only [String.append_assoc]
      exact Verdict.read_model proper

/-- As a backend the search is honest, as long as the counts of its input are
machine integers. -/
theorem honest_backend
    (preferred : Bool)
    (input output : String)
    {atomCount clauseCount : Nat}
    (atomsBounded : atomCount ≤ Word.greatest)
    (clausesBounded : clauseCount ≤ Word.greatestCount) :
    (backend preferred).Honest input output atomCount clauseCount := by
  rintro _ files numbered comment inRange rfl clausesFit usable textAt _
  obtain ⟨written, writes, writtenUsable, readsBack⟩ :=
    usable.symm.exists_write (answer preferred numbered)
  obtain ⟨verdict, reads, right⟩ :=
    exists_read_answer inRange atomsBounded preferred
  have readsInput := NumberedClauses.read_text inRange atomsBounded
    (Nat.le_trans clausesFit clausesBounded) comment
  have runs : run preferred input output files = .ok written := by
    simp only [run, textAt, readsInput, bind, Except.bind, writes]
  have calls : backend preferred () input output files =
      { result := .ok (), memory := (), files := written } := by
    simp only [backend, runs]
  rw [calls]
  exact ⟨rfl, writtenUsable.symm, _, verdict, readsBack, reads, right⟩

end Search
end OrderEncoding
