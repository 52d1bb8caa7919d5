import Mathlib.Order.Bounds.Defs
import OrderEncoding.Proofs.Encoding.ExactSums
import OrderEncoding.Proofs.Repetitions

/-!
# Merging the monomials of a sum

A sum of monomials denotes a form exactly when the coefficients of each variable
can be added up in machine arithmetic, one after the other, and the values of the
merged monomials and of their opposites stay in range.  The form then takes the
values of the sum, and its bounds are the least and the greatest of them.
-/

namespace OrderEncoding

/-! ## Reaches in machine arithmetic -/

/-- The reach of a monomial, if every integer that is computed on the way is a
machine integer. -/
def Monomial.reach? (term : Monomial) : Option Int := do
  let _ ← Word.check? (-term.coefficient)
  let atLower ← Word.check? (term.coefficient * term.var.lower)
  let atUpper ← Word.check? (term.coefficient * term.var.upper)
  let lowerSize ← Word.check? atLower.natAbs
  let upperSize ← Word.check? atUpper.natAbs
  Word.check? (max lowerSize upperSize + 1)

/-- The sum of the reaches of monomials that are added to a machine integer, if
every integer on the way is one. -/
def LinearForm.addReaches? (terms : List Monomial) (start : Int) : Option Int :=
  terms.foldlM (fun sum term => do Word.check? (sum + (← term.reach?))) start

/-- The reach of a form, if every integer on the way is a machine integer. -/
def LinearForm.reach? (form : LinearForm) : Option Int :=
  addReaches? form.monomials 0

theorem Monomial.reach?_eq_some_iff
    {term : Monomial}
    {result : Int} :
    term.reach? = some result ↔ term.Representable ∧ result = term.reach := by
  simp only [reach?, Representable, reach, Option.bind_eq_bind,
    Option.bind_eq_some_iff, Word.check?_eq_some_iff]
  generalize term.coefficient * term.var.lower = atLower
  generalize term.coefficient * term.var.upper = atUpper
  constructor
  · rintro ⟨_, ⟨opposite, _⟩, _, ⟨_, rfl⟩, _, ⟨_, rfl⟩, _, ⟨_, rfl⟩, _, ⟨_, rfl⟩,
      bounded, rfl⟩
    unfold Word.Fits at bounded
    exact ⟨⟨opposite, by omega⟩, by omega⟩
  · rintro ⟨⟨opposite, bounded⟩, rfl⟩
    have lowerSize : (atLower.natAbs : Int) ≤ Word.greatest := by omega
    have upperSize : (atUpper.natAbs : Int) ≤ Word.greatest := by omega
    have reachFits : Word.Fits (max (atLower.natAbs : Int) atUpper.natAbs + 1) := by
      unfold Word.Fits Word.least
      omega
    exact ⟨_, ⟨opposite, rfl⟩,
      _, ⟨Word.fits_of_natAbs_le_greatest lowerSize, rfl⟩,
      _, ⟨Word.fits_of_natAbs_le_greatest upperSize, rfl⟩,
      _, ⟨Word.fits_of_natAbs_le_greatest lowerSize, rfl⟩,
      _, ⟨Word.fits_of_natAbs_le_greatest upperSize, rfl⟩, reachFits, by omega⟩

namespace Monomial

theorem lower_negated (term : Monomial) : term.negated.lower = -term.upper := by
  unfold lower upper negated
  by_cases zero : term.coefficient = 0
  · simp [zero]
  · have opposite : 0 < -term.coefficient ↔ ¬0 < term.coefficient := by omega
    simp only [opposite, ite_not, Int.neg_mul]
    split <;> rfl

theorem upper_negated (term : Monomial) : term.negated.upper = -term.lower := by
  unfold lower upper negated
  by_cases zero : term.coefficient = 0
  · simp [zero]
  · have opposite : 0 < -term.coefficient ↔ ¬0 < term.coefficient := by omega
    simp only [opposite, ite_not, Int.neg_mul]
    split <;> rfl

end Monomial

namespace LinearForm

/-- Reaches are positive, so partial sums of them are in range when the sum of all
of them is. -/
theorem addReaches?_eq_some_iff
    {terms : List Monomial}
    {start result : Int}
    (nonneg : 0 ≤ start)
    (startBounded : start ≤ Word.greatest) :
    addReaches? terms start = some result ↔
      (∀ term ∈ terms, term.Representable) ∧
        start + total (terms.map Monomial.reach) ≤ Word.greatest ∧
        result = start + total (terms.map Monomial.reach) := by
  induction terms generalizing start with
  | nil => simp [addReaches?, startBounded, eq_comm]
  | cons first rest inductionHypothesis =>
      have positive := first.natAbs_lower_lt_reach
      have step : addReaches? (first :: rest) start = some result ↔
          first.Representable ∧ Word.Fits (start + first.reach) ∧
            addReaches? rest (start + first.reach) = some result := by
        simp only [addReaches?, List.foldlM_cons, Option.bind_eq_bind,
          Option.bind_eq_some_iff, Monomial.reach?_eq_some_iff,
          Word.check?_eq_some_iff]
        constructor
        · rintro ⟨_, ⟨_, ⟨representable, rfl⟩, fits, rfl⟩, others⟩
          exact ⟨representable, fits, others⟩
        · rintro ⟨representable, fits, others⟩
          exact ⟨_, ⟨_, ⟨representable, rfl⟩, fits, rfl⟩, others⟩
      rw [step, List.forall_mem_cons, List.map_cons, total_cons]
      constructor
      · rintro ⟨representable, fits, others⟩
        obtain ⟨restRepresentable, bounded, rfl⟩ :=
          (inductionHypothesis (by omega) fits.2).mp others
        exact ⟨⟨representable, restRepresentable⟩, by omega, by omega⟩
      · rintro ⟨⟨representable, restRepresentable⟩, bounded, rfl⟩
        have restNonneg := total_reach_nonneg rest
        have fits : Word.Fits (start + first.reach) := by
          unfold Word.Fits Word.least
          omega
        exact ⟨representable, fits, (inductionHypothesis (by omega) fits.2).mpr
          ⟨restRepresentable, by omega, by omega⟩⟩

/-- The reach of a form is computed in machine arithmetic exactly when the form is
representable. -/
theorem reach?_eq_some_iff
    {form : LinearForm}
    {result : Int} :
    form.reach? = some result ↔
      (∀ term ∈ form.monomials, term.Representable) ∧
        form.reach ≤ Word.greatest ∧ result = form.reach := by
  rw [reach?, addReaches?_eq_some_iff (Int.le_refl 0) (by decide), Int.zero_add,
    reach]

/-! ## Coefficients of variables -/

/-- The sum of the coefficients that monomials of a named variable have. -/
def coefficientOf (name : String) (terms : List Monomial) : Int :=
  total ((terms.filter (·.var.name = name)).map Monomial.coefficient)

/-- The variables of a sum, each at the place of its first monomial. -/
def scopeOf (terms : List Monomial) : List Variable :=
  (terms.map Monomial.var).eraseDups

/-- A monomial for each variable of a sum, also if its coefficients cancel. -/
def gathered (terms : List Monomial) : List Monomial :=
  (scopeOf terms).map fun x => ⟨x, coefficientOf x.name terms⟩

/-- The form that has a monomial for each variable whose coefficients do not
cancel. -/
def merged (terms : List Monomial) : LinearForm :=
  { monomials := (gathered terms).filter (·.coefficient ≠ 0) }

/-- Monomials of variables with the same name are monomials of one variable. -/
def Named (terms : List Monomial) : Prop :=
  ∀ first ∈ terms, ∀ second ∈ terms,
    first.var.name = second.var.name → first.var = second.var

/-- When monomials are added one after the other, the coefficient of every variable
stays a machine integer. -/
def RunningSumsFit (terms : List Monomial) : Prop :=
  ∀ front, front <+: terms → ∀ name, Word.Fits (coefficientOf name front)

@[simp] theorem coefficientOf_nil (name : String) :
    coefficientOf name [] = 0 := rfl

theorem coefficientOf_append_singleton
    (name : String)
    (front : List Monomial)
    (last : Monomial) :
    coefficientOf name (front ++ [last]) =
      coefficientOf name front +
        if last.var.name = name then last.coefficient else 0 := by
  by_cases same : last.var.name = name <;>
    simp [coefficientOf, List.filter_append, same]

theorem coefficientOf_eq_zero
    {name : String}
    {terms : List Monomial}
    (absent : name ∉ terms.map (·.var.name)) :
    coefficientOf name terms = 0 := by
  have none_named : terms.filter (·.var.name = name) = [] := by
    rw [List.filter_eq_nil_iff]
    intro term member named
    rw [decide_eq_true_iff] at named
    exact absent (named ▸ List.mem_map_of_mem member)
  rw [coefficientOf, none_named, List.map_nil, total_nil]

@[simp] theorem mem_scopeOf
    {terms : List Monomial}
    {x : Variable} :
    x ∈ scopeOf terms ↔ ∃ term ∈ terms, term.var = x := by
  simp [scopeOf]

theorem scopeOf_append_of_mem
    {front : List Monomial}
    {last : Monomial}
    (known : last.var ∈ scopeOf front) :
    scopeOf (front ++ [last]) = scopeOf front := by
  rw [scopeOf, List.map_append, List.map_singleton]
  exact eraseDups_append_of_mem (List.mem_eraseDups.mp known)

theorem scopeOf_append_of_notMem
    {front : List Monomial}
    {last : Monomial}
    (new : last.var ∉ scopeOf front) :
    scopeOf (front ++ [last]) = scopeOf front ++ [last.var] := by
  rw [scopeOf, List.map_append, List.map_singleton]
  exact eraseDups_append_of_notMem fun old => new (List.mem_eraseDups.mpr old)

theorem Named.front
    {front : List Monomial}
    {last : Monomial}
    (named : Named (front ++ [last])) :
    Named front :=
  fun first firstMem second secondMem =>
    named first (List.mem_append_left _ firstMem)
      second (List.mem_append_left _ secondMem)

/-- Variables of a sum are told apart by their names. -/
theorem Named.eq_of_name_eq
    {terms : List Monomial}
    (named : Named terms)
    {x y : Variable}
    (xMem : x ∈ scopeOf terms)
    (yMem : y ∈ scopeOf terms)
    (sameName : x.name = y.name) :
    x = y := by
  obtain ⟨first, firstMem, rfl⟩ := mem_scopeOf.mp xMem
  obtain ⟨second, secondMem, rfl⟩ := mem_scopeOf.mp yMem
  exact named first firstMem second secondMem sameName

theorem Named.names_nodup
    {terms : List Monomial}
    (named : Named terms) :
    ((scopeOf terms).map Variable.name).Nodup :=
  (nodup_eraseDups _).map_on fun _ xMem _ yMem sameName =>
    named.eq_of_name_eq xMem yMem sameName

/-! ## Gathering -/

/-- A monomial of a variable that is listed already is merged with the one that is
listed, if the sum of their coefficients fits. -/
theorem gather_map_eq_ok_iff
    {vars : List Variable}
    (nodup : (vars.map Variable.name).Nodup)
    {coefficient : Variable → Int}
    {term : Monomial}
    (listed : term.var ∈ vars)
    {result : List Monomial} :
    gather (vars.map fun x => ⟨x, coefficient x⟩) term = .ok result ↔
      Word.Fits (coefficient term.var + term.coefficient) ∧
        result = vars.map fun x => ⟨x, coefficient x +
          if term.var.name = x.name then term.coefficient else 0⟩ := by
  induction vars generalizing result with
  | nil => contradiction
  | cons first rest inductionHypothesis =>
      obtain ⟨firstNew, restNodup⟩ := List.nodup_cons.mp nodup
      rw [List.map_cons, gather]
      by_cases sameName : first.name = term.var.name
      · have same : term.var = first := by
          rcases List.mem_cons.mp listed with same | inRest
          · exact same
          · exact absurd (List.mem_map_of_mem inRest) (sameName ▸ firstNew)
        have others : rest.map (fun x => (⟨x, coefficient x +
            if term.var.name = x.name then term.coefficient else 0⟩ : Monomial)) =
              rest.map fun x => ⟨x, coefficient x⟩ := by
          refine List.map_congr_left fun x member => ?_
          have different : term.var.name ≠ x.name := fun equal =>
            firstNew (sameName.trans equal ▸ List.mem_map_of_mem member)
          rw [if_neg different, Int.add_zero]
        rw [if_pos sameName, List.map_cons, others, if_pos sameName.symm, same]
        split
        · rename_i fits
          simp [fits, eq_comm]
        · rename_i unfit
          simp [unfit]
      · have inRest : term.var ∈ rest :=
          (List.mem_cons.mp listed).resolve_left fun same => sameName (same ▸ rfl)
        rw [if_neg sameName, Results.map_eq_ok_iff, List.map_cons,
          if_neg (Ne.symm sameName), Int.add_zero]
        simp only [inductionHypothesis restNodup inRest]
        constructor
        · rintro ⟨_, ⟨fits, rfl⟩, rfl⟩
          exact ⟨fits, rfl⟩
        · rintro ⟨fits, rfl⟩
          exact ⟨_, ⟨fits, rfl⟩, rfl⟩

/-- One more monomial is taken up exactly when the coefficient of its variable still
fits. -/
theorem gather_gathered_eq_ok_iff
    {front : List Monomial}
    {last : Monomial}
    (named : Named (front ++ [last]))
    (lastFits : Word.Fits last.coefficient)
    {result : List Monomial} :
    gather (gathered front) last = .ok result ↔
      Word.Fits (coefficientOf last.var.name (front ++ [last])) ∧
        result = gathered (front ++ [last]) := by
  by_cases known : last.var ∈ scopeOf front
  · rw [gathered, gather_map_eq_ok_iff named.front.names_nodup known, gathered,
      scopeOf_append_of_mem known]
    simp only [coefficientOf_append_singleton, if_true]
  · have absent : last.var.name ∉ front.map (·.var.name) := by
      intro present
      obtain ⟨term, member, sameName⟩ := List.mem_map.mp present
      refine known (mem_scopeOf.mpr ⟨term, member, ?_⟩)
      exact named term (List.mem_append_left _ member) last
        (List.mem_append_right _ (.head _)) sameName
    have fresh : last.var.name ∉ (gathered front).map (·.var.name) := by
      simpa [gathered] using absent
    have others : (scopeOf front).map (fun x =>
        (⟨x, coefficientOf x.name (front ++ [last])⟩ : Monomial)) =
          gathered front := by
      refine List.map_congr_left fun x member => ?_
      obtain ⟨term, termMem, rfl⟩ := mem_scopeOf.mp member
      have different : last.var.name ≠ term.var.name := fun equal =>
        absent (equal ▸ List.mem_map_of_mem termMem)
      rw [coefficientOf_append_singleton, if_neg different, Int.add_zero]
    rw [gather_of_fresh fresh, gathered.eq_1 (front ++ [last]),
      scopeOf_append_of_notMem known, List.map_append, others,
      List.map_singleton, coefficientOf_append_singleton, if_pos rfl,
      coefficientOf_eq_zero absent, Int.zero_add, Except.ok.injEq, eq_comm]
    exact (and_iff_right lastFits).symm

theorem runningSumsFit_append_singleton_iff
    {front : List Monomial}
    {last : Monomial} :
    RunningSumsFit (front ++ [last]) ↔
      RunningSumsFit front ∧
        Word.Fits (coefficientOf last.var.name (front ++ [last])) := by
  constructor
  · intro sums
    exact ⟨fun start starts => sums start (starts.trans (List.prefix_append _ _)),
      sums _ List.prefix_rfl _⟩
  · rintro ⟨sums, lastFits⟩ start starts name
    rcases List.prefix_concat_iff.mp starts with rfl | inFront
    · by_cases same : last.var.name = name
      · exact same ▸ lastFits
      · rw [coefficientOf_append_singleton, if_neg same, Int.add_zero]
        exact sums front List.prefix_rfl name
    · exact sums start inFront name

/-- A sum is gathered exactly when all running sums of coefficients fit. -/
theorem foldlM_gather_eq_ok_iff
    {terms result : List Monomial}
    (named : Named terms)
    (coefficients : ∀ term ∈ terms, Word.Fits term.coefficient) :
    terms.foldlM gather [] = .ok result ↔
      RunningSumsFit terms ∧ result = gathered terms := by
  induction terms using List.reverseRecOn generalizing result with
  | nil =>
      have noSums : RunningSumsFit [] := by
        intro front starts name
        obtain rfl := List.prefix_nil.mp starts
        rw [coefficientOf_nil]
        decide
      simp [noSums, gathered, scopeOf, pure, Except.pure, eq_comm]
  | append_singleton front last inductionHypothesis =>
      obtain ⟨frontFits, lastFits⟩ := List.forall_mem_append.mp coefficients
      rw [List.foldlM_append, Results.bind_eq_ok_iff,
        runningSumsFit_append_singleton_iff]
      simp only [List.foldlM_cons, List.foldlM_nil, bind_pure,
        inductionHypothesis named.front frontFits]
      have step := @gather_gathered_eq_ok_iff front last named
        (lastFits last (.head _)) result
      constructor
      · rintro ⟨_, ⟨sums, rfl⟩, gathers⟩
        obtain ⟨sumFits, rfl⟩ := step.mp gathers
        exact ⟨⟨sums, sumFits⟩, rfl⟩
      · rintro ⟨⟨sums, sumFits⟩, rfl⟩
        exact ⟨_, ⟨sums, rfl⟩, step.mpr ⟨sumFits, rfl⟩⟩

/-- The form that a sum denotes has a monomial for each variable whose coefficients
do not cancel, in the order of the first monomials. -/
theorem ofMonomials_eq_ok_iff_merged
    {terms : List Monomial}
    (named : Named terms)
    (coefficients : ∀ term ∈ terms, Word.Fits term.coefficient)
    {form : LinearForm} :
    ofMonomials terms = .ok form ↔
      form = merged terms ∧ RunningSumsFit terms ∧
        (∀ term ∈ form.monomials, term.Representable) ∧
        form.reach ≤ Word.greatest := by
  have same : ∀ monomials, form.monomials = monomials ↔ form = { monomials } := by
    cases form
    simp
  rw [ofMonomials_eq_ok_iff]
  simp only [foldlM_gather_eq_ok_iff named coefficients, same]
  constructor
  · rintro ⟨_, ⟨sums, rfl⟩, isMerged, representable, bounded⟩
    exact ⟨isMerged, sums, representable, bounded⟩
  · rintro ⟨isMerged, sums, representable, bounded⟩
    exact ⟨_, ⟨sums, rfl⟩, isMerged, representable, bounded⟩

/-- Of coefficients that fit, only the least machine integer has an opposite that
does not. -/
theorem representable_iff_of_reach_le
    {form : LinearForm}
    (fits : ∀ term ∈ form.monomials, Word.Fits term.coefficient)
    (bounded : form.reach ≤ Word.greatest) :
    (∀ term ∈ form.monomials, term.Representable) ↔
      ∀ term ∈ form.monomials, term.coefficient ≠ Word.least := by
  refine forall₂_congr fun term member => ?_
  have reachBounded := Int.le_trans (reach_le_of_mem member) bounded
  have coefficientFits := fits term member
  unfold Monomial.Representable Word.Fits Word.least Word.greatest at *
  omega

theorem RunningSumsFit.coefficient_fits
    {terms : List Monomial}
    (sums : RunningSumsFit terms) :
    ∀ term ∈ (merged terms).monomials, Word.Fits term.coefficient := by
  intro term member
  obtain ⟨x, _, rfl⟩ := List.mem_map.mp (List.mem_filter.mp member).1
  exact sums terms List.prefix_rfl x.name

/-! ## Bounds of values -/

/-- The variables of a sum have values of their domains. -/
def InDomains (terms : List Monomial) (value : String → Int) : Prop :=
  ∀ term ∈ terms, term.var.Contains (value term.var.name)

theorem InDomains.inside
    {terms : List Monomial}
    {value : String → Int}
    (inDomains : InDomains terms value) :
    (merged terms).Inside value := by
  intro term member
  obtain ⟨x, inScope, rfl⟩ := List.mem_map.mp (List.mem_filter.mp member).1
  obtain ⟨original, originalMem, rfl⟩ := mem_scopeOf.mp inScope
  exact inDomains original originalMem

/-- The values that a form takes when the variables of a sum have values of their
domains. -/
def valuesOver (terms : List Monomial) (form : LinearForm) : Set Int :=
  { sum | ∃ value, InDomains terms value ∧ form.eval value = sum }

/-- The valuation that gives each of some variables a chosen value. -/
def choosing (choice : Variable → Int) (scope : List Variable) (name : String) :
    Int :=
  ((scope.find? (·.name = name)).map choice).getD 0

theorem choosing_name
    {scope : List Variable}
    (nodup : (scope.map Variable.name).Nodup)
    (choice : Variable → Int)
    {x : Variable}
    (member : x ∈ scope) :
    choosing choice scope x.name = choice x := by
  rw [choosing, find?_eq_some_of_nodup nodup member, Option.map_some,
    Option.getD_some]

theorem inDomains_choosing
    {terms : List Monomial}
    (named : Named terms)
    {choice : Variable → Int}
    (inside : ∀ x : Variable, x.Contains (choice x)) :
    InDomains terms (choosing choice (scopeOf terms)) := by
  intro term member
  rw [choosing_name named.names_nodup choice (mem_scopeOf.mpr ⟨term, member, rfl⟩)]
  exact inside term.var

/-- Variables whose values are chosen one by one give every monomial its part of the
form's value. -/
theorem eval_merged_choosing
    {terms : List Monomial}
    (named : Named terms)
    {choice : Variable → Int}
    {part : Monomial → Int}
    (chosen : ∀ x, coefficientOf x.name terms * choice x =
      part ⟨x, coefficientOf x.name terms⟩) :
    (merged terms).eval (choosing choice (scopeOf terms)) =
      total ((merged terms).monomials.map part) := by
  refine congrArg total (List.map_congr_left fun term member => ?_)
  obtain ⟨x, inScope, rfl⟩ := List.mem_map.mp (List.mem_filter.mp member).1
  rw [Monomial.eval, choosing_name named.names_nodup choice inScope, chosen]

/-- The lower bound of a form is its least value. -/
theorem isLeast_lower
    {terms : List Monomial}
    (named : Named terms) :
    IsLeast ((merged terms).valuesOver terms) (merged terms).lower := by
  constructor
  · refine ⟨choosing (fun x => if 0 < coefficientOf x.name terms then x.lower
      else x.upper) (scopeOf terms), inDomains_choosing named fun x => ?_,
      eval_merged_choosing named fun x => ?_⟩
    · have ordered := x.lower_le_upper
      unfold Variable.Contains
      split <;> omega
    · unfold Monomial.lower
      split <;> rfl
  · rintro _ ⟨value, inDomains, rfl⟩
    exact inDomains.inside.lower_le_eval

/-- The upper bound of a form is its greatest value. -/
theorem isGreatest_upper
    {terms : List Monomial}
    (named : Named terms) :
    IsGreatest ((merged terms).valuesOver terms) (merged terms).upper := by
  constructor
  · refine ⟨choosing (fun x => if 0 < coefficientOf x.name terms then x.upper
      else x.lower) (scopeOf terms), inDomains_choosing named fun x => ?_,
      eval_merged_choosing named fun x => ?_⟩
    · have ordered := x.lower_le_upper
      unfold Variable.Contains
      split <;> omega
    · unfold Monomial.upper
      split <;> rfl
  · rintro _ ⟨value, inDomains, rfl⟩
    exact inDomains.inside.eval_le_upper

/-! ## What a sum denotes -/

/-- What a form that a sum of monomials denotes has to do with the sum. -/
structure Merges (terms : List Monomial) (form : LinearForm) : Prop where
  eq_merged : form = merged terms
  names_nodup : (form.monomials.map (·.var.name)).Nodup
  /-- The variables stand in the order in which they appear in the sum first. -/
  ordered : form.monomials.Pairwise fun first second =>
    (terms.map Monomial.var).idxOf first.var <
      (terms.map Monomial.var).idxOf second.var
  nonzero : form.Nonzero
  /-- In machine arithmetic, too, the form has the value of the sum. -/
  eval_eq : ∀ value, InDomains terms value →
    form.eval value = total (terms.map (Monomial.eval value)) ∧
      form.evalWith Word.check? value = some (form.eval value)
  lower : IsLeast (form.valuesOver terms) form.lower ∧
    form.lowerWith Word.check? = some form.lower
  upper : IsGreatest (form.valuesOver terms) form.upper ∧
    form.upperWith Word.check? = some form.upper
  negated : (∀ value, form.negated.eval value = -form.eval value) ∧
    form.negatedWith Word.check? = some form.negated
  negated_lower : form.negated.lowerWith Word.check? = some (-form.upper)
  negated_upper : form.negated.upperWith Word.check? = some (-form.lower)

theorem map_var_gathered (terms : List Monomial) :
    (gathered terms).map Monomial.var = scopeOf terms := by
  simp [gathered, Function.comp_def]

theorem Named.names_nodup_merged
    {terms : List Monomial}
    (named : Named terms) :
    ((merged terms).monomials.map (·.var.name)).Nodup := by
  have names : (gathered terms).map (·.var.name) =
      (scopeOf terms).map Variable.name := by
    simp [gathered, Function.comp_def]
  exact (names ▸ named.names_nodup).sublist (List.filter_sublist.map _)

theorem pairwise_idxOf_merged (terms : List Monomial) :
    (merged terms).monomials.Pairwise fun first second =>
      (terms.map Monomial.var).idxOf first.var <
        (terms.map Monomial.var).idxOf second.var := by
  have ordered := pairwise_idxOf_eraseDups (terms.map Monomial.var)
  change (scopeOf terms).Pairwise _ at ordered
  rw [← map_var_gathered, List.pairwise_map] at ordered
  exact ordered.sublist List.filter_sublist

theorem nonzero_merged (terms : List Monomial) : (merged terms).Nonzero :=
  fun _ member => of_decide_eq_true (List.mem_filter.mp member).2

/-- What negating changes the sign of in every monomial, it changes the sign of in
the form. -/
theorem total_map_negated
    {form : LinearForm}
    {part opposite : Monomial → Int}
    (changed : ∀ term ∈ form.monomials, part term.negated = -opposite term) :
    total (form.negated.monomials.map part) =
      -total (form.monomials.map opposite) := by
  rw [LinearForm.negated, List.map_map, ← total_map_neg]
  exact congrArg total (List.map_congr_left changed)

theorem lower_negated (form : LinearForm) :
    form.negated.lower = -form.upper :=
  total_map_negated fun term _ => term.lower_negated

theorem upper_negated (form : LinearForm) :
    form.negated.upper = -form.lower :=
  total_map_negated fun term _ => term.upper_negated

/-- A form that a sum denotes merges the monomials of the sum, and all that is
computed with it is exact in machine arithmetic. -/
theorem merges_of_ofMonomials
    {terms : List Monomial}
    (named : Named terms)
    (coefficients : ∀ term ∈ terms, Word.Fits term.coefficient)
    {form : LinearForm}
    (denotes : ofMonomials terms = .ok form) :
    form.Merges terms := by
  obtain ⟨rfl, _, representable, bounded⟩ :=
    (ofMonomials_eq_ok_iff_merged named coefficients).mp denotes
  have nonzero := nonzero_merged terms
  have exact_check := Word.exact_check?
  have negatedBounded : (merged terms).negated.reach ≤ Word.greatest := by
    rwa [reach_negated]
  have declared : ∀ term ∈ terms, term.var ∈ terms.map Monomial.var :=
    fun term member => List.mem_map_of_mem member
  have evalSum := (wellFormed_of_ofMonomials declared coefficients denotes).2
  refine ⟨rfl, named.names_nodup_merged, pairwise_idxOf_merged terms, nonzero,
    fun value inDomains => ⟨evalSum value,
      evalWith_eq_pure exact_check bounded inDomains.inside⟩,
    ⟨isLeast_lower named, lowerWith_eq_pure exact_check bounded⟩,
    ⟨isGreatest_upper named, upperWith_eq_pure exact_check bounded⟩,
    ⟨fun value => eval_negated value _, negatedWith_eq_pure exact_check
      fun term member => (representable term member).1⟩, ?_, ?_⟩
  · rw [← lower_negated]
    exact lowerWith_eq_pure exact_check negatedBounded
  · rw [← upper_negated]
    exact upperWith_eq_pure exact_check negatedBounded

/-- A sum of monomials, in which equal names stand for one variable, denotes a form
exactly when the coefficients of each variable can be added up one after the other,
none of the merged coefficients is the least machine integer, and the sum of the
reaches is a machine integer.  Testing every integer on the way refuses the same
sums.  The form merges the monomials of the sum. -/
theorem sum_denotes_merged_form
    {terms : List Monomial}
    (named : Named terms)
    (coefficients : ∀ term ∈ terms, Word.Fits term.coefficient) :
    ((∃ form, ofMonomials terms = .ok form) ↔
      RunningSumsFit terms ∧
      (∀ term ∈ (merged terms).monomials, term.coefficient ≠ Word.least) ∧
      (merged terms).reach ≤ Word.greatest) ∧
    ((∃ form, ofMonomials terms = .ok form) ↔
      RunningSumsFit terms ∧ ∃ sum, (merged terms).reach? = some sum) ∧
    ∀ form, ofMonomials terms = .ok form → form.Merges terms := by
  have denotes_iff : (∃ form, ofMonomials terms = .ok form) ↔
      RunningSumsFit terms ∧
        (∀ term ∈ (merged terms).monomials, term.Representable) ∧
        (merged terms).reach ≤ Word.greatest := by
    simp only [ofMonomials_eq_ok_iff_merged named coefficients, exists_eq_left]
  refine ⟨?_, ?_, fun form => merges_of_ofMonomials named coefficients⟩
  · rw [denotes_iff]
    refine and_congr_right fun sums => and_congr_left fun bounded => ?_
    exact representable_iff_of_reach_le sums.coefficient_fits bounded
  · simp only [denotes_iff, reach?_eq_some_iff, exists_and_left, exists_eq, and_true]

/-- A variable whose coefficients cancel is left out.  Two coefficients that fit, and
whose sum does, are refused when the sum is the least machine integer. -/
theorem sum_denotes_merged_form_cancelling :
    let x : Variable := { name := "x", lower := 0, upper := 2 }
    let y : Variable := { name := "y", lower := -1, upper := 1 }
    let z : Variable := { name := "z", lower := 0, upper := 0 }
    let terms : List Monomial := [⟨x, 2⟩, ⟨y, -3⟩, ⟨z, 5⟩, ⟨x, 1⟩, ⟨z, -5⟩]
    let extreme : List Monomial := [⟨z, -Word.greatest⟩, ⟨z, -1⟩]
    (Named terms ∧ ∀ term ∈ terms, Word.Fits term.coefficient) ∧
    (∃ form : LinearForm, ofMonomials terms = .ok form ∧ form.Merges terms ∧
      form.monomials = [⟨x, 3⟩, ⟨y, -3⟩] ∧
      IsLeast (form.valuesOver terms) (-3) ∧
      IsGreatest (form.valuesOver terms) 9) ∧
    (Named extreme ∧ ∀ term ∈ extreme, Word.Fits term.coefficient) ∧
    ¬∃ form, ofMonomials extreme = .ok form := by
  intro x y z terms extreme
  have named : Named terms := by unfold Named; decide
  have coefficients : ∀ term ∈ terms, Word.Fits term.coefficient := by decide
  have extremeNamed : Named extreme := by unfold Named; decide
  have extremeFits : ∀ term ∈ extreme, Word.Fits term.coefficient := by decide
  have denotes : ofMonomials terms = .ok { monomials := [⟨x, 3⟩, ⟨y, -3⟩] } :=
    ofMonomials_eq_ok_iff.mpr ⟨_, rfl, rfl, by decide, by decide⟩
  have merges := (sum_denotes_merged_form named coefficients).2.2 _ denotes
  have refused := (sum_denotes_merged_form extremeNamed extremeFits).1
  refine ⟨⟨named, coefficients⟩,
    ⟨_, denotes, merges, rfl, merges.lower.1, merges.upper.1⟩,
    ⟨extremeNamed, extremeFits⟩, ?_⟩
  rw [refused]
  rintro ⟨_, noLeast, _⟩
  exact noLeast ⟨z, Word.least⟩ (by decide) rfl

end LinearForm
end OrderEncoding
