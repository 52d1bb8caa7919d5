import Mathlib.Data.List.Nodup
import OrderEncoding.Proofs.Encoding.Axioms

/-!
# Needed axioms

The axioms of a variable say at each value of its domain that truth goes on from
the order atom below it.  At a value between the two ends nothing else says so:
without this clause the order atoms may be true from one below the value on, but
for the value itself, and then describe no integer.  At an end of the domain the
clause follows from the one that fixes the order atom of that end.
-/

namespace OrderEncoding
namespace Variable

/-- The axioms of a variable without monotonicity at one bound. -/
def axiomsWithout (x : Variable) (bound : Int) : ThresholdForm :=
  x.axioms.erase (x.monotone bound)

/-- The truth assignment whose order atoms are true from one below a bound on,
except at the bound. -/
def gapAt (bound : Int) : Atom → Bool
  | .order _ other => decide (bound - 1 ≤ other ∧ other ≠ bound)
  | .selector _ _ => false

theorem monotone_injective (x : Variable) : Function.Injective x.monotone := by
  intro first second same
  rw [monotone, monotone, List.cons.injEq, List.cons.injEq] at same
  exact congrArg Threshold.bound same.2.1

/-- No axiom of a variable is stated twice. -/
theorem nodup_axioms (x : Variable) : x.axioms.Nodup := by
  rw [axioms, List.nodup_cons, List.nodup_cons]
  refine ⟨?_, ?_, ?_⟩
  · simp [monotone, atMost, Threshold.negated]
  · simp [monotone]
  · exact List.Nodup.map x.monotone_injective x.nodup_domain

/-- Monotonicity at a value of the domain is one of the axioms. -/
theorem axioms_perm
    {x : Variable}
    {bound : Int}
    (inside : x.Contains bound) :
    x.axioms.Perm (x.monotone bound :: x.axiomsWithout bound) := by
  apply List.perm_cons_erase
  rw [axioms]
  exact .tail _ (.tail _ (List.mem_map_of_mem (mem_domain.mpr inside)))

theorem axiomsWithout_eq (x : Variable) (bound : Int) :
    x.axiomsWithout bound =
      [(x.atMost (x.lower - 1)).negated] :: [x.atMost x.upper] ::
        (x.domain.erase bound).map x.monotone := by
  rw [axiomsWithout, axioms, List.erase_cons_tail (by simp [monotone]),
    List.erase_cons_tail (by simp [monotone]),
    List.map_erase x.monotone_injective]

/-- What the axioms without monotonicity at a bound say about the order atoms. -/
theorem axiomsWithout_hold_iff
    (x : Variable)
    (bound : Int)
    (truth : Atom → Bool) :
    (x.axiomsWithout bound).all (·.any (Threshold.holds truth)) = true ↔
      truth (.order x.name (x.lower - 1)) = false ∧
      truth (.order x.name x.upper) = true ∧
      ∀ other, other ≠ bound → x.Contains other →
        truth (.order x.name (other - 1)) = true →
          truth (.order x.name other) = true := by
  rw [axiomsWithout_eq, chain_holds_iff]
  simp only [x.nodup_domain.mem_erase_iff, mem_domain, and_imp]

/-- Between the ends of the domain the gap satisfies all axioms but monotonicity
at the gap. -/
theorem axiomsWithout_hold_gapAt
    {x : Variable}
    {bound : Int}
    (aboveLower : x.lower < bound)
    (belowUpper : bound < x.upper) :
    (x.axiomsWithout bound).all (·.any (Threshold.holds (gapAt bound))) = true := by
  rw [axiomsWithout_hold_iff]
  simp only [gapAt, decide_eq_true_eq, decide_eq_false_iff_not]
  refine ⟨by omega, by omega, ?_⟩
  intro other notGap _ below
  omega

/-- No integer is described by the gap at a value of the domain: the order atom below
that value is true, but its own is false. -/
theorem not_hasValue_gapAt
    {x : Variable}
    {bound : Int}
    (inside : x.Contains bound)
    (value : Int) :
    ¬x.HasValue (gapAt bound) value := by
  obtain ⟨low, high⟩ := inside
  intro hasValue
  have below := hasValue (bound - 1) (by omega) (by omega)
  have atGap := hasValue bound (by omega) high
  simp only [gapAt, decide_eq_true_eq] at below atGap
  omega

/-- At an end of the domain monotonicity follows from the other axioms. -/
theorem axiomsWithout_hold_iff_axioms
    {x : Variable}
    {bound : Int}
    (atEnd : bound = x.lower ∨ bound = x.upper)
    (truth : Atom → Bool) :
    (x.axiomsWithout bound).all (·.any (Threshold.holds truth)) = true ↔
      x.axioms.all (·.any (Threshold.holds truth)) = true := by
  rw [axiomsWithout_hold_iff, axioms_hold_iff]
  refine and_congr_right fun falseBelow => and_congr_right fun trueAtUpper => ?_
  constructor
  · intro chain other within below
    by_cases isEnd : other = bound
    · subst isEnd
      rcases atEnd with rfl | rfl
      · rw [falseBelow] at below
        contradiction
      · exact trueAtUpper
    · exact chain other isEnd within below
  · intro chain other _ within
    exact chain other within

/-- Monotonicity at a value of the domain, which the axioms state once, is needed
exactly between the ends of the domain.  There the other axioms have a model that
describes no integer; at an end they have the same models as all axioms. -/
theorem monotone_needed_iff_between_ends
    (x : Variable)
    {bound : Int}
    (inside : x.Contains bound) :
    (x.axioms.Perm (x.monotone bound :: x.axiomsWithout bound) ∧
      x.monotone bound ∉ x.axiomsWithout bound) ∧
    ((∃ truth,
        (x.axiomsWithout bound).all (·.any (Threshold.holds truth)) = true ∧
          ∀ value, ¬x.HasValue truth value) ↔
      x.lower < bound ∧ bound < x.upper) ∧
    (bound = x.lower ∨ bound = x.upper →
      {truth | (x.axiomsWithout bound).all
          (·.any (Threshold.holds truth)) = true} =
        {truth | x.axioms.all (·.any (Threshold.holds truth)) = true}) := by
  refine ⟨⟨axioms_perm inside, x.nodup_axioms.not_mem_erase⟩, ⟨?_, ?_⟩, ?_⟩
  · rintro ⟨truth, holds, describesNone⟩
    by_contra atEnd
    obtain ⟨low, high⟩ := inside
    have atEnd : bound = x.lower ∨ bound = x.upper := by omega
    rw [axiomsWithout_hold_iff_axioms atEnd,
      axioms_hold_iff_exists_hasValue] at holds
    obtain ⟨value, _, hasValue⟩ := holds
    exact describesNone value hasValue
  · rintro ⟨aboveLower, belowUpper⟩
    exact ⟨gapAt bound, axiomsWithout_hold_gapAt aboveLower belowUpper,
      not_hasValue_gapAt inside⟩
  · intro atEnd
    ext truth
    exact axiomsWithout_hold_iff_axioms atEnd truth

/-- Of a domain of three values only the middle one needs its own axiom. -/
theorem monotone_needed_iff_between_ends_three_values :
    let x : Variable := { name := "x", lower := -1, upper := 1 }
    x.Contains 0 ∧ x.Contains 1 ∧
      (∃ truth, (x.axiomsWithout 0).all (·.any (Threshold.holds truth)) = true ∧
        ∀ value, ¬x.HasValue truth value) ∧
      {truth | (x.axiomsWithout 1).all (·.any (Threshold.holds truth)) = true} =
        {truth | x.axioms.all (·.any (Threshold.holds truth)) = true} := by
  intro x
  have middle := monotone_needed_iff_between_ends x (show x.Contains 0 by decide)
  have last := monotone_needed_iff_between_ends x (show x.Contains 1 by decide)
  exact ⟨by decide, by decide, middle.2.1.mpr (by decide), last.2.2 (.inr rfl)⟩

end Variable
end OrderEncoding
