import OrderEncoding.Proofs.Encoding.Distinct
import OrderEncoding.Proofs.Encoding.Thresholds
import OrderEncoding.Proofs.Encoding.Tuples
import OrderEncoding.Proofs.Problem.LinearForms

/-!
# The encoding of an inequality means the inequality

Encoding an inequality never fails.  When every variable has a value of its
domain, the conjunction of disjunctions of thresholds holds exactly when the
inequality does.
-/

namespace OrderEncoding

namespace LinearForm

/-- The disjunction that compares every monomial with its bound of a tuple. -/
def tupleDisjunction
    (form : LinearForm)
    (bounds : List Int) :
    List Threshold :=
  (form.monomials.zip bounds).map fun (term, bound) =>
    Threshold.ofMonomial term bound

/-- The conjunction of disjunctions that says that a form is at most a bound. -/
def atMostForm (form : LinearForm) (bound : Int) : ThresholdForm :=
  if form.monomials.isEmpty then
    if 0 ≤ bound then [] else [[]]
  else if bound < form.lower then
    [[]]
  else
    (Encoding.tuplesWithSum form.boundRanges
      (bound - form.monomials.length + 1)).map form.tupleDisjunction

theorem encodeAtMost_eq_ok
    (form : LinearForm)
    (bound : Int) :
    form.encodeAtMost bound = .ok (form.atMostForm bound) := by
  have singles : ∀ bounds,
      form.disjunction bounds = .ok (form.tupleDisjunction bounds) :=
    fun bounds => Results.mapM_eq_ok_map fun _ _ => rfl
  unfold encodeAtMost atMostForm
  split
  next empty => rfl
  next nonempty =>
    split
    next below => rfl
    next reachable => exact Results.mapM_eq_ok_map fun bounds _ => singles bounds

/-- The thresholds of an encoding are those of monomials and of bounds from
their ranges. -/
theorem exists_term_of_mem_atMostForm
    {form : LinearForm}
    {bound : Int}
    {disjunction : List Threshold}
    (disjunctionMem : disjunction ∈ form.atMostForm bound)
    {threshold : Threshold}
    (thresholdMem : threshold ∈ disjunction) :
    ∃ term ∈ form.monomials, ∃ reached,
      term.lower - 1 ≤ reached ∧ reached ≤ term.upper ∧
      threshold = Threshold.ofMonomial term reached := by
  have noneInEmpty : disjunction ≠ [] := List.ne_nil_of_mem thresholdMem
  unfold atMostForm at disjunctionMem
  split at disjunctionMem
  next empty =>
    split at disjunctionMem <;> simp_all
  next nonempty =>
    split at disjunctionMem
    next below => simp_all
    next reachable =>
      obtain ⟨bounds, boundsMem, rfl⟩ := List.mem_map.mp disjunctionMem
      obtain ⟨⟨term, reached⟩, pairMem, rfl⟩ := List.mem_map.mp thresholdMem
      have within := (Encoding.mem_tuplesWithSum.mp boundsMem).1
      rw [Encoding.Within, boundRanges, List.forall₂_map_right_iff] at within
      obtain ⟨low, high⟩ := List.forall₂_zip within.flip pairMem
      exact ⟨term, (List.of_mem_zip pairMem).1, reached, low, high, rfl⟩

theorem leastSum_boundRanges (form : LinearForm) :
    Encoding.leastSum form.boundRanges = form.lower - form.monomials.length := by
  obtain ⟨monomials⟩ := form
  induction monomials with
  | nil => rfl
  | cons term rest inductionHypothesis =>
      simp only [boundRanges, lower, List.map_cons, Encoding.leastSum_cons,
        total_cons, List.length_cons] at inductionHypothesis ⊢
      omega

/-- Values of the domains lie above the lower ends of the ranges. -/
theorem Inside.above_boundRanges
    {form : LinearForm}
    {value : String → Int}
    (inside : form.Inside value) :
    List.Forall₂ (fun reached range => range.1 < reached ∧ reached ≤ range.2)
      (form.monomials.map (Monomial.eval value)) form.boundRanges := by
  rw [boundRanges, List.forall₂_map_left_iff, List.forall₂_map_right_iff,
    List.forall₂_same]
  intro term member
  have least := Monomial.lower_le_eval (inside term member)
  have greatest := Monomial.eval_le_upper (inside term member)
  dsimp only
  omega

/-- The disjunction of a tuple fails when every monomial exceeds its bound. -/
theorem not_tupleDisjunction_iff
    {form : LinearForm}
    (nonzero : form.Nonzero)
    {bounds : List Int}
    (sameLength : bounds.length = form.monomials.length)
    (value : String → Int) :
    ¬((form.tupleDisjunction bounds).any fun threshold =>
        threshold.eval (value threshold.var.name)) = true ↔
      List.Forall₂ (· < ·) bounds (form.monomials.map (Monomial.eval value)) := by
  obtain ⟨monomials⟩ := form
  induction monomials generalizing bounds with
  | nil =>
      rw [List.length_eq_zero_iff.mp sameLength]
      simp [tupleDisjunction]
  | cons term rest inductionHypothesis =>
      obtain _ | ⟨bound, others⟩ := bounds
      · contradiction
      · have restIff := inductionHypothesis
          (fun other member => nonzero other (.tail _ member))
          (Nat.succ.inj sameLength)
        simp only [tupleDisjunction, List.zip_cons_cons, List.map_cons,
          List.any_cons, Bool.or_eq_true, not_or, List.forall₂_cons,
          Threshold.var_ofMonomial,
          Threshold.eval_ofMonomial (nonzero term (.head _)),
          decide_eq_true_eq, Int.not_le] at restIff ⊢
        rw [restIff]
        rfl

/-- Above the bound, and only there, some tuple has all monomials above it. -/
theorem exists_tuple_below_iff
    {form : LinearForm}
    {value : String → Int}
    (inside : form.Inside value)
    {bound : Int}
    (reachable : form.lower ≤ bound) :
    (∃ bounds ∈ Encoding.tuplesWithSum form.boundRanges
        (bound - form.monomials.length + 1),
      List.Forall₂ (· < ·) bounds (form.monomials.map (Monomial.eval value))) ↔
      bound < form.eval value := by
  simp only [Encoding.mem_tuplesWithSum]
  constructor
  · rintro ⟨bounds, ⟨_, sum⟩, below⟩
    have exceeded := total_add_length_le_total below
    have sameLength := below.length_eq
    rw [List.length_map] at sameLength
    unfold eval
    omega
  · intro exceeded
    have least := form.leastSum_boundRanges
    obtain ⟨bounds, within, sum, below⟩ :=
      Encoding.exists_within_below inside.above_boundRanges
        (bound - form.monomials.length + 1) (by omega) (by
          rw [List.length_map]
          unfold eval at exceeded
          omega)
    exact ⟨bounds, ⟨within, sum⟩, below⟩

/-- The encoding of a form that is at most a bound means just that. -/
theorem eval_atMostForm
    {form : LinearForm}
    {value : String → Int}
    (nonzero : form.Nonzero)
    (inside : form.Inside value)
    (bound : Int) :
    (form.atMostForm bound).eval value = decide (form.eval value ≤ bound) := by
  unfold atMostForm
  split
  next empty =>
    have zero : form.eval value = 0 := by
      rw [List.isEmpty_iff] at empty
      rw [eval, empty, List.map_nil, total_nil]
    rw [zero]
    split
    next holds => simp [ThresholdForm.eval, holds]
    next fails => simp [ThresholdForm.eval, fails]
  next nonempty =>
    split
    next unreachable =>
      have least := inside.lower_le_eval
      have exceeded : ¬form.eval value ≤ bound := by omega
      simp [ThresholdForm.eval, exceeded]
    next reachable =>
      rw [Bool.eq_iff_iff, decide_eq_true_eq, ← not_iff_not, Int.not_le,
        ← exists_tuple_below_iff inside (Int.not_lt.mp reachable)]
      simp only [ThresholdForm.eval, List.all_map, List.all_eq_true,
        Function.comp_apply, not_forall, exists_prop]
      refine exists_congr fun bounds => and_congr_right fun member => ?_
      have within := (Encoding.mem_tuplesWithSum.mp member).1
      have sameLength : bounds.length = form.monomials.length := by
        rw [within.length_eq, boundRanges, List.length_map]
      exact not_tupleDisjunction_iff nonzero sameLength value

end LinearForm

namespace Inequality

/-- The encoding of an inequality, which always exists. -/
def thresholdForm (inequality : Inequality) : ThresholdForm :=
  ThresholdForm.distinct <|
    if inequality.positive then
      inequality.form.atMostForm inequality.bound
    else
      inequality.form.negated.atMostForm (-1 - inequality.bound)

theorem encode_eq_ok (inequality : Inequality) :
    inequality.encode = .ok inequality.thresholdForm := by
  unfold encode thresholdForm
  split <;> rw [LinearForm.encodeAtMost_eq_ok] <;> rfl

/-- The thresholds of an encoding lie where the axioms of their variables give
them a meaning. -/
theorem exists_term_of_mem_thresholdForm
    {inequality : Inequality}
    (nonzero : inequality.form.Nonzero)
    {disjunction : List Threshold}
    (disjunctionMem : disjunction ∈ inequality.thresholdForm)
    {threshold : Threshold}
    (thresholdMem : threshold ∈ disjunction) :
    ∃ term ∈ inequality.form.monomials, threshold.var = term.var ∧
      term.var.lower - 1 ≤ threshold.bound ∧
      threshold.bound ≤ term.var.upper := by
  have undropped := (ThresholdForm.distinct_sublist _).subset disjunctionMem
  split at undropped
  next positive =>
    obtain ⟨term, termMem, reached, low, high, rfl⟩ :=
      LinearForm.exists_term_of_mem_atMostForm undropped thresholdMem
    exact ⟨term, termMem, Threshold.var_ofMonomial term reached,
      Threshold.bound_ofMonomial_mem (nonzero term termMem) low high⟩
  next negative =>
    obtain ⟨opposite, oppositeMem, reached, low, high, rfl⟩ :=
      LinearForm.exists_term_of_mem_atMostForm undropped thresholdMem
    obtain ⟨term, termMem, rfl⟩ := List.mem_map.mp oppositeMem
    exact ⟨term, termMem, Threshold.var_ofMonomial _ reached,
      Threshold.bound_ofMonomial_mem (nonzero.negated _ oppositeMem) low high⟩

/-- The encoding of an inequality means the inequality. -/
theorem eval_thresholdForm
    {inequality : Inequality}
    {value : String → Int}
    (nonzero : inequality.form.Nonzero)
    (inside : inequality.form.Inside value) :
    inequality.thresholdForm.eval value = inequality.eval value := by
  have distinctEval : ∀ form : ThresholdForm,
      form.distinct.eval value = form.eval value :=
    ThresholdForm.all_distinct _
  unfold thresholdForm eval
  rw [distinctEval]
  split
  next positive =>
    rw [LinearForm.eval_atMostForm nonzero inside, positive, beq_true]
  next negative =>
    have opposite : -inequality.form.eval value ≤ -1 - inequality.bound ↔
        ¬inequality.form.eval value ≤ inequality.bound := by omega
    rw [Bool.not_eq_true] at negative
    rw [LinearForm.eval_atMostForm nonzero.negated inside.negated,
      LinearForm.eval_negated, negative, beq_false]
    simp only [opposite, decide_not]

end Inequality
end OrderEncoding
