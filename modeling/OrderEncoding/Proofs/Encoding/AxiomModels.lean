import Mathlib.Data.Set.Function
import Mathlib.Order.Bounds.Basic
import OrderEncoding.Proofs.Encoding.Axioms

/-!
# Models of the axioms of a variable

The axioms of a variable are about the order atoms from one below its domain to
its greatest value.  These atoms satisfy the axioms when they are true from some
value of the domain on; the value is the least bound whose atom is true.  So the
models of the axioms and the values of the domain correspond one to one.
-/

namespace OrderEncoding
namespace Variable

/-- The bounds whose order atoms occur in the axioms of a variable. -/
def axiomBounds (x : Variable) : Set Int :=
  {bound | x.lower - 1 ≤ bound ∧ bound ≤ x.upper}

/-- The truth assignment with the given values for the order atoms of a variable.
All other atoms are false. -/
def extended
    (x : Variable)
    (assignment : x.axiomBounds → Bool) : Atom → Bool
  | .order name bound =>
      if member : name = x.name ∧ x.lower - 1 ≤ bound ∧ bound ≤ x.upper then
        assignment ⟨bound, member.2⟩
      else false
  | .selector _ _ => false

@[simp] theorem extended_order
    {x : Variable}
    (assignment : x.axiomBounds → Bool)
    (bound : x.axiomBounds) :
    x.extended assignment (.order x.name bound) = assignment bound :=
  dif_pos ⟨rfl, bound.2⟩

/-- The truth values of the order atoms of a variable that has some value: false
below the value, and true from there on. -/
def staircase (x : Variable) (value : Int) (bound : x.axiomBounds) : Bool :=
  decide (value ≤ bound)

/-- The order atoms of a variable that has a value form the staircase of the
value. -/
theorem hasValue_extended_iff
    {x : Variable}
    {assignment : x.axiomBounds → Bool}
    {value : Int} :
    x.HasValue (x.extended assignment) value ↔
      x.staircase value = assignment := by
  constructor
  · intro hasValue
    funext bound
    rw [staircase, Bool.eq_iff_iff, decide_eq_true_eq,
      ← hasValue bound bound.2.1 bound.2.2, extended_order]
  · rintro rfl bound low high
    rw [extended_order _ ⟨bound, low, high⟩, staircase, decide_eq_true_eq]

/-- The value of a variable is the least bound whose order atom is true. -/
theorem HasValue.isLeast
    {x : Variable}
    {truth : Atom → Bool}
    {value : Int}
    (hasValue : x.HasValue truth value)
    (inside : x.Contains value) :
    IsLeast {bound | bound ∈ x.axiomBounds ∧ truth (.order x.name bound) = true}
      value := by
  obtain ⟨low, high⟩ := inside
  have fromBelow : x.lower - 1 ≤ value := by omega
  refine ⟨⟨⟨fromBelow, high⟩, ?_⟩, ?_⟩
  · exact (hasValue value fromBelow high).mpr (Int.le_refl value)
  · rintro bound ⟨⟨boundLow, boundHigh⟩, holds⟩
    exact (hasValue bound boundLow boundHigh).mp holds

theorem HasValue.unique
    {x : Variable}
    {truth : Atom → Bool}
    {value other : Int}
    (hasValue : x.HasValue truth value)
    (inside : x.Contains value)
    (hasOther : x.HasValue truth other)
    (otherInside : x.Contains other) :
    other = value :=
  (hasOther.isLeast otherInside).unique (hasValue.isLeast inside)

/-- The staircases of the values of the domain are the models of the axioms, each
of them once. -/
theorem bijOn_staircase (x : Variable) :
    Set.BijOn x.staircase {value | x.Contains value}
      {assignment | x.axioms.all
        (·.any (Threshold.holds (x.extended assignment))) = true} := by
  refine ⟨?mapsTo, ?injOn, ?surjOn⟩
  case mapsTo =>
    intro value inside
    exact (axioms_hold_iff_exists_hasValue x _).mpr
      ⟨value, inside, hasValue_extended_iff.mpr rfl⟩
  case injOn =>
    intro value inside other otherInside same
    have hasValue : x.HasValue (x.extended (x.staircase value)) value :=
      hasValue_extended_iff.mpr rfl
    have hasOther : x.HasValue (x.extended (x.staircase value)) other :=
      hasValue_extended_iff.mpr same.symm
    exact hasOther.unique otherInside hasValue inside
  case surjOn =>
    intro assignment holds
    obtain ⟨value, inside, hasValue⟩ :=
      (axioms_hold_iff_exists_hasValue x _).mp holds
    exact ⟨value, inside, hasValue_extended_iff.mp hasValue⟩

/-- The axioms of a variable describe an integer.  They hold exactly when the order
atoms from one below the domain to its greatest value are true from some value of
the domain on.  There is no other such value, and it is the least bound whose atom
is true.  So the values of the domain and the models of the axioms correspond one
to one. -/
theorem axioms_describe_values (x : Variable) :
    (∀ truth : Atom → Bool,
      (x.axioms.all (·.any (Threshold.holds truth)) = true ↔
        ∃ value, x.Contains value ∧ x.HasValue truth value) ∧
      ∀ value, x.Contains value → x.HasValue truth value →
        (∀ other, x.Contains other → x.HasValue truth other → other = value) ∧
        IsLeast
          {bound | bound ∈ x.axiomBounds ∧ truth (.order x.name bound) = true}
          value) ∧
    Set.BijOn x.staircase {value | x.Contains value}
      {assignment | x.axioms.all
        (·.any (Threshold.holds (x.extended assignment))) = true} := by
  refine ⟨fun truth => ⟨axioms_hold_iff_exists_hasValue x truth, ?_⟩,
    bijOn_staircase x⟩
  intro value inside hasValue
  exact ⟨fun other otherInside hasOther =>
    hasValue.unique inside hasOther otherInside, hasValue.isLeast inside⟩

end Variable
end OrderEncoding
