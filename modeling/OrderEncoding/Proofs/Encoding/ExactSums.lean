import Mathlib.Data.List.Nodup
import OrderEncoding.Proofs.Encoding.Arithmetic
import OrderEncoding.Proofs.Problem.LinearForms
import OrderEncoding.Proofs.Text.Numerals

/-!
# Exact sums of machine integers

An arithmetic that leaves the integers up to a limit as they are computes a sum
exactly when the sum of the absolute values stays within the limit.  The reach of a
linear form bounds these sums for its least value, its greatest value and its values
within the domains.
-/

namespace OrderEncoding

/-! ## Arithmetic that is exact up to a limit -/

variable {m : Type → Type} [Monad m]

namespace Word

/-- An integer lies within a limit as the machine integers lie within the greatest
of them: below zero there is one more. -/
def Within (limit value : Int) : Prop :=
  -limit - 1 ≤ value ∧ value ≤ limit

/-- An arithmetic leaves the integers within a limit as they are. -/
def Exact (limit : Int) (hold : Int → m Int) : Prop :=
  ∀ value, Within limit value → hold value = pure value

theorem within_greatest_iff {value : Int} : Within greatest value ↔ Fits value :=
  Iff.rfl

theorem within_of_natAbs_le
    {limit value : Int}
    (bounded : value.natAbs ≤ limit) :
    Within limit value := by
  rw [Within]
  omega

theorem fits_of_natAbs_le_greatest
    {value : Int}
    (bounded : value.natAbs ≤ greatest) :
    Fits value :=
  within_greatest_iff.mp (within_of_natAbs_le bounded)

theorem Exact.eq_pure
    {limit : Int}
    {hold : Int → m Int}
    (exact : Exact limit hold)
    (value : Int)
    (bounded : value.natAbs ≤ limit) :
    hold value = pure value :=
  exact value (within_of_natAbs_le bounded)

theorem exact_pure (limit : Int) : Exact (m := m) limit pure :=
  fun _ _ => rfl

theorem exact_check? : Exact greatest check? := by
  intro value within
  exact check?_eq_some_iff.mpr ⟨within_greatest_iff.mp within, rfl⟩

theorem wrap_eq_self
    {value : Int}
    (fits : Fits value) :
    wrap value = value := by
  rw [Fits, least, greatest] at fits
  rw [wrap, greatestCount, Int.bmod_eq_of_le] <;> omega

theorem exact_wrap : Exact (m := Id) greatest wrap :=
  fun _ within => wrap_eq_self (within_greatest_iff.mp within)

end Word

/-- An action that is pure on every element of a list gives the list of its
values. -/
theorem mapM_eq_pure_map
    [LawfulMonad m]
    {α β : Type}
    {action : α → m β}
    {value : α → β}
    {elements : List α}
    (isPure : ∀ element ∈ elements, action element = pure (value element)) :
    elements.mapM action = pure (elements.map value) := by
  induction elements with
  | nil => simp
  | cons first rest inductionHypothesis =>
      obtain ⟨firstPure, restPure⟩ := List.forall_mem_cons.mp isPure
      rw [List.mapM_cons, firstPure, pure_bind, inductionHypothesis restPure,
        pure_bind, List.map_cons]

variable [LawfulMonad m] {limit : Int} {hold : Int → m Int}

/-! ## Sums -/

/-- The sum of the absolute values of integers. -/
def magnitude (values : List Int) : Int :=
  total (values.map fun value => (value.natAbs : Int))

@[simp] theorem magnitude_cons
    (first : Int)
    (rest : List Int) :
    magnitude (first :: rest) = first.natAbs + magnitude rest := rfl

theorem magnitude_nonneg (values : List Int) : 0 ≤ magnitude values := by
  induction values with
  | nil => exact Int.le_refl 0
  | cons first rest inductionHypothesis =>
      rw [magnitude_cons]
      omega

theorem natAbs_le_magnitude
    {values : List Int}
    {value : Int}
    (member : value ∈ values) :
    (value.natAbs : Int) ≤ magnitude values := by
  induction values with
  | nil => contradiction
  | cons first rest inductionHypothesis =>
      have restNonneg := magnitude_nonneg rest
      rw [magnitude_cons]
      rcases List.mem_cons.mp member with rfl | inRest
      · omega
      · have inRestBound := inductionHypothesis inRest
        omega

theorem neg_magnitude_le_total (values : List Int) :
    -magnitude values ≤ total values := by
  induction values with
  | nil => exact Int.le_refl 0
  | cons first rest inductionHypothesis =>
      rw [magnitude_cons, total_cons]
      omega

/-- A sum whose magnitude stays within a limit has partial sums that do. -/
theorem totalWith_eq_pure
    (exact : Word.Exact limit hold)
    {values : List Int}
    (bounded : magnitude values ≤ limit) :
    totalWith hold values = pure (total values) := by
  have fromStart : ∀ start : Int,
      start.natAbs + magnitude values ≤ limit →
      values.foldlM (fun sum value => hold (sum + value)) start =
        pure (start + total values) := by
    clear bounded
    induction values with
    | nil =>
        intro start _
        rw [List.foldlM_nil, total_nil, Int.add_zero]
    | cons first rest inductionHypothesis =>
        intro start startBounded
        rw [magnitude_cons] at startBounded
        have restNonneg := magnitude_nonneg rest
        have partialFits : Word.Within limit (start + first) :=
          Word.within_of_natAbs_le (by omega)
        rw [List.foldlM_cons, exact _ partialFits, pure_bind,
          inductionHypothesis (start + first) (by omega), total_cons,
          Int.add_assoc]
  rw [totalWith, fromStart 0 (by simpa using bounded), Int.zero_add]

namespace Monomial

/-! ## Monomials -/

theorem natAbs_lower_lt_reach (term : Monomial) :
    (term.lower.natAbs : Int) + 1 ≤ term.reach := by
  rw [lower, reach]
  split <;> omega

theorem natAbs_upper_lt_reach (term : Monomial) :
    (term.upper.natAbs : Int) + 1 ≤ term.reach := by
  rw [upper, reach]
  split <;> omega

theorem natAbs_eval_lt_reach
    {term : Monomial}
    {value : String → Int}
    (inside : term.var.Contains (value term.var.name)) :
    ((term.eval value).natAbs : Int) + 1 ≤ term.reach := by
  have low := lower_le_eval inside
  have high := eval_le_upper inside
  have lowBound := term.natAbs_lower_lt_reach
  have highBound := term.natAbs_upper_lt_reach
  omega

@[simp] theorem reach_negated (term : Monomial) :
    term.negated.reach = term.reach := by
  simp only [reach, negated, Int.neg_mul, Int.natAbs_neg]

theorem negatedWith_eq_pure
    (exact : Word.Exact limit hold)
    {term : Monomial}
    (fits : Word.Within limit (-term.coefficient)) :
    term.negatedWith hold = pure term.negated := by
  rw [negatedWith, exact _ fits, pure_bind]
  rfl

omit [LawfulMonad m] in
theorem lowerWith_eq_pure
    (exact : Word.Exact limit hold)
    {term : Monomial}
    (bounded : term.reach ≤ limit) :
    term.lowerWith hold = pure term.lower := by
  have lowBound := term.natAbs_lower_lt_reach
  have fits : Word.Within limit term.lower :=
    Word.within_of_natAbs_le (by omega)
  rw [← exact _ fits, lowerWith, lower]
  split <;> rfl

omit [LawfulMonad m] in
theorem upperWith_eq_pure
    (exact : Word.Exact limit hold)
    {term : Monomial}
    (bounded : term.reach ≤ limit) :
    term.upperWith hold = pure term.upper := by
  have highBound := term.natAbs_upper_lt_reach
  have fits : Word.Within limit term.upper :=
    Word.within_of_natAbs_le (by omega)
  rw [← exact _ fits, upperWith, upper]
  split <;> rfl

theorem rangeWith_eq_pure
    (exact : Word.Exact limit hold)
    {term : Monomial}
    (bounded : term.reach ≤ limit) :
    term.rangeWith hold = pure (term.lower - 1, term.upper) := by
  have lowBound := term.natAbs_lower_lt_reach
  have fits : Word.Within limit (term.lower - 1) :=
    Word.within_of_natAbs_le (by omega)
  rw [rangeWith, lowerWith_eq_pure exact bounded, pure_bind, exact _ fits,
    pure_bind, upperWith_eq_pure exact bounded, pure_bind]

omit [LawfulMonad m] in
theorem evalWith_eq_pure
    (exact : Word.Exact limit hold)
    {term : Monomial}
    (bounded : term.reach ≤ limit)
    {value : String → Int}
    (inside : term.var.Contains (value term.var.name)) :
    term.evalWith hold value = pure (term.eval value) := by
  have valueBound := natAbs_eval_lt_reach inside
  exact exact _ (Word.within_of_natAbs_le (by rw [eval] at valueBound; omega))

end Monomial

namespace LinearForm

/-! ## Forms -/

/-- What stays below the reach of each monomial stays, in sum, below the reach of
the form by the number of monomials. -/
theorem magnitude_add_length_le_reach
    {form : LinearForm}
    {part : Monomial → Int}
    (below : ∀ term ∈ form.monomials, ((part term).natAbs : Int) + 1 ≤ term.reach) :
    magnitude (form.monomials.map part) + form.monomials.length ≤ form.reach := by
  obtain ⟨monomials⟩ := form
  induction monomials with
  | nil => exact Int.le_refl 0
  | cons first rest inductionHypothesis =>
      obtain ⟨firstBelow, restBelow⟩ := List.forall_mem_cons.mp below
      have restBound := inductionHypothesis restBelow
      simp only [reach, List.map_cons, magnitude_cons, total_cons,
        List.length_cons] at restBound ⊢
      omega

theorem total_reach_nonneg (terms : List Monomial) :
    0 ≤ total (terms.map Monomial.reach) := by
  induction terms with
  | nil => exact Int.le_refl 0
  | cons first rest inductionHypothesis =>
      have firstBound := first.natAbs_lower_lt_reach
      simp only [List.map_cons, total_cons]
      omega

theorem reach_le_of_mem
    {form : LinearForm}
    {term : Monomial}
    (member : term ∈ form.monomials) :
    term.reach ≤ form.reach := by
  obtain ⟨monomials⟩ := form
  induction monomials with
  | nil => contradiction
  | cons first rest inductionHypothesis =>
      have restNonneg := total_reach_nonneg rest
      have firstBound := first.natAbs_lower_lt_reach
      simp only [reach, List.map_cons, total_cons] at inductionHypothesis ⊢
      rcases List.mem_cons.mp member with rfl | inRest
      · omega
      · have restBound := inductionHypothesis inRest
        omega

@[simp] theorem reach_negated (form : LinearForm) :
    form.negated.reach = form.reach := by
  rw [reach, negated, List.map_map, reach]
  exact congrArg total (List.map_congr_left fun term _ => term.reach_negated)

/-- A part of every monomial that stays below its reach is added up exactly. -/
theorem totalWith_map_eq_pure
    (exact : Word.Exact limit hold)
    {form : LinearForm}
    (bounded : form.reach ≤ limit)
    {part : Monomial → Int}
    (below : ∀ term ∈ form.monomials,
      ((part term).natAbs : Int) + 1 ≤ term.reach) :
    totalWith hold (form.monomials.map part) =
      pure (total (form.monomials.map part)) := by
  have sumBound := magnitude_add_length_le_reach below
  exact totalWith_eq_pure exact (by omega)

theorem negatedWith_eq_pure
    (exact : Word.Exact limit hold)
    {form : LinearForm}
    (fits : ∀ term ∈ form.monomials,
      Word.Within limit (-term.coefficient)) :
    form.negatedWith hold = pure form.negated := by
  have opposites : form.monomials.mapM (Monomial.negatedWith hold) =
      pure (form.monomials.map Monomial.negated) :=
    mapM_eq_pure_map fun term member =>
      Monomial.negatedWith_eq_pure exact (fits term member)
  rw [negatedWith, opposites, pure_bind]
  rfl

theorem lowerWith_eq_pure
    (exact : Word.Exact limit hold)
    {form : LinearForm}
    (bounded : form.reach ≤ limit) :
    form.lowerWith hold = pure form.lower := by
  have parts : form.monomials.mapM (Monomial.lowerWith hold) =
      pure (form.monomials.map Monomial.lower) :=
    mapM_eq_pure_map fun term member => Monomial.lowerWith_eq_pure exact
      (Int.le_trans (reach_le_of_mem member) bounded)
  rw [lowerWith, parts, pure_bind]
  exact totalWith_map_eq_pure exact bounded
    fun term _ => term.natAbs_lower_lt_reach

theorem upperWith_eq_pure
    (exact : Word.Exact limit hold)
    {form : LinearForm}
    (bounded : form.reach ≤ limit) :
    form.upperWith hold = pure form.upper := by
  have parts : form.monomials.mapM (Monomial.upperWith hold) =
      pure (form.monomials.map Monomial.upper) :=
    mapM_eq_pure_map fun term member => Monomial.upperWith_eq_pure exact
      (Int.le_trans (reach_le_of_mem member) bounded)
  rw [upperWith, parts, pure_bind]
  exact totalWith_map_eq_pure exact bounded
    fun term _ => term.natAbs_upper_lt_reach

theorem evalWith_eq_pure
    (exact : Word.Exact limit hold)
    {form : LinearForm}
    (bounded : form.reach ≤ limit)
    {value : String → Int}
    (inside : form.Inside value) :
    form.evalWith hold value = pure (form.eval value) := by
  have parts : form.monomials.mapM (Monomial.evalWith hold value) =
      pure (form.monomials.map (Monomial.eval value)) :=
    mapM_eq_pure_map fun term member => Monomial.evalWith_eq_pure exact
      (Int.le_trans (reach_le_of_mem member) bounded) (inside term member)
  rw [evalWith, parts, pure_bind]
  exact totalWith_map_eq_pure exact bounded
    fun term member => Monomial.natAbs_eval_lt_reach (inside term member)

end LinearForm

end OrderEncoding
