import OrderEncoding.Proofs.Encoding.Assembly
import OrderEncoding.Proofs.Encoding.ExactTuples
import OrderEncoding.Proofs.Problem.Reading

/-!
# The integers of an encoding are machine integers

An arithmetic that leaves the integers within a limit as they are encodes a problem
exactly when the limit is great enough.  So the encoding in exact arithmetic is the
encoding, of every problem.  For a problem that is read, the greatest machine integer
is great enough: arithmetic that refuses all but machine integers refuses nothing,
and arithmetic that wraps around never does so.  All that is tested for this is the
reach of the forms, when they are read.
-/

namespace OrderEncoding

variable
  {m : Type → Type} [Monad m] [LawfulMonad m]
  {limit : Int}
  {hold : Int → m Int}

/-! ## Thresholds -/

theorem natAbs_fdiv_le
    (value : Int)
    {divisor : Int}
    (nonneg : 0 ≤ divisor) :
    (value.fdiv divisor).natAbs ≤ value.natAbs := by
  rw [Int.fdiv_eq_ediv_of_nonneg value nonneg]
  exact Int.natAbs_ediv_le_natAbs value divisor

theorem Threshold.ofMonomialWith_eq_pure
    (exact : Word.Exact limit hold)
    (term : Monomial)
    {bound : Int}
    (bounded : bound.natAbs ≤ limit) :
    ofMonomialWith hold term bound = pure (ofMonomial term bound) := by
  unfold ofMonomialWith ofMonomial
  split
  next positive =>
    have quotientBound := natAbs_fdiv_le bound (Int.le_of_lt positive)
    rw [exact.eq_pure _ (by omega), pure_bind]
  next nonpositive =>
    have quotientBound := natAbs_fdiv_le bound
      (show 0 ≤ -term.coefficient by omega)
    -- Below zero, one integer more is within the limit.
    have belowWithin :
        Word.Within limit (-(bound.fdiv (-term.coefficient)) - 1) := by
      rw [Word.Within]
      omega
    rw [exact.eq_pure _ (by omega), pure_bind, exact _ belowWithin, pure_bind]

namespace LinearForm

theorem spread_boundRanges_le_reach (form : LinearForm) :
    Encoding.spread form.boundRanges ≤ form.reach := by
  rw [boundRanges, Encoding.spread, reach, List.map_map]
  apply total_le_total
  rw [List.forall₂_map_left_iff, List.forall₂_map_right_iff, List.forall₂_same]
  intro term _
  have lowBound := term.natAbs_lower_lt_reach
  have highBound := term.natAbs_upper_lt_reach
  rw [Function.comp_apply]
  omega

/-- The bounds of a tuple are no further from zero than the reach. -/
theorem natAbs_le_reach_of_mem_tuple
    {form : LinearForm}
    {target : Int}
    {bounds : List Int}
    (boundsMem : bounds ∈ Encoding.tuplesWithSum form.boundRanges target)
    {term : Monomial}
    {bound : Int}
    (pairMem : (term, bound) ∈ form.monomials.zip bounds) :
    (bound.natAbs : Int) ≤ form.reach := by
  have within := (Encoding.mem_tuplesWithSum.mp boundsMem).1
  rw [Encoding.Within, boundRanges, List.forall₂_map_right_iff] at within
  obtain ⟨low, high⟩ := List.forall₂_zip within.flip pairMem
  have lowBound := term.natAbs_lower_lt_reach
  have highBound := term.natAbs_upper_lt_reach
  have termReach := reach_le_of_mem (List.of_mem_zip pairMem).1
  dsimp only at low high
  omega

theorem encodeAtMostWith_eq_pure
    (exact : Word.Exact limit hold)
    {form : LinearForm}
    (bounded : form.reach ≤ limit)
    {bound : Int}
    (boundWithin : Word.Within limit bound) :
    form.encodeAtMostWith hold bound = pure (form.atMostForm bound) := by
  have sumBound := magnitude_add_length_le_reach
    fun term (_ : term ∈ form.monomials) => term.natAbs_lower_lt_reach
  have lowerBound : -magnitude (form.monomials.map Monomial.lower) ≤ form.lower :=
    neg_magnitude_le_total _
  have ranges : form.monomials.mapM (Monomial.rangeWith hold) =
      pure form.boundRanges :=
    mapM_eq_pure_map fun term member => Monomial.rangeWith_eq_pure exact
      (Int.le_trans (reach_le_of_mem member) bounded)
  have tuples := Encoding.tuplesWith_eq_pure exact
    (Int.le_trans form.spread_boundRanges_le_reach bounded)
  have disjunctions : ∀ target,
      (Encoding.tuplesWithSum form.boundRanges target).mapM (fun bounds =>
          (form.monomials.zip bounds).mapM fun pair =>
            Threshold.ofMonomialWith hold pair.1 pair.2) =
        pure ((Encoding.tuplesWithSum form.boundRanges target).map
          form.tupleDisjunction) :=
    fun target => mapM_eq_pure_map fun bounds boundsMem =>
      mapM_eq_pure_map fun pair pairMem =>
        Threshold.ofMonomialWith_eq_pure exact pair.1
          (Int.le_trans (natAbs_le_reach_of_mem_tuple boundsMem pairMem) bounded)
  rw [encodeAtMostWith, atMostForm]
  split
  next empty => rfl
  next nonempty =>
    rw [lowerWith_eq_pure exact bounded, pure_bind]
    split
    next below => rfl
    next reachable =>
      have magnitudeNonneg :=
        magnitude_nonneg (form.monomials.map Monomial.lower)
      have sizePositive : 0 < form.monomials.length := by
        rw [List.isEmpty_iff] at nonempty
        exact List.length_pos_iff.mpr nonempty
      rw [Word.Within] at boundWithin
      have belowWithin : Word.Within limit (bound - form.monomials.length) := by
        rw [Word.Within]
        omega
      have targetWithin :
          Word.Within limit (bound - form.monomials.length + 1) := by
        rw [Word.Within]
        omega
      rw [exact.eq_pure _ (by omega), pure_bind, exact _ belowWithin, pure_bind,
        exact _ targetWithin, pure_bind, ranges, pure_bind, tuples, pure_bind,
        disjunctions]

end LinearForm

namespace Inequality

/-- A limit is great enough to encode an inequality and to compute its values. -/
structure Within (limit : Int) (inequality : Inequality) : Prop where
  reach : inequality.form.reach ≤ limit
  opposites : ∀ term ∈ inequality.form.monomials,
    Word.Within limit (-term.coefficient)
  bound : Word.Within limit inequality.bound

theorem WellFormed.within
    {scope : List Variable}
    {inequality : Inequality}
    (wellFormed : inequality.WellFormed scope) :
    inequality.Within Word.greatest :=
  ⟨wellFormed.form.reach_le,
    fun term member => (wellFormed.form.representable term member).1,
    wellFormed.bound_fits⟩

/-- Some limit is great enough. -/
theorem exists_within (inequality : Inequality) :
    ∃ limit, inequality.Within limit := by
  let coefficients := inequality.form.monomials.map Monomial.coefficient
  refine ⟨inequality.form.reach.natAbs + inequality.bound.natAbs +
    magnitude coefficients, ?_, fun term member => ?_, ?_⟩
  · have nonneg := magnitude_nonneg coefficients
    omega
  · have atMost : (term.coefficient.natAbs : Int) ≤ magnitude coefficients :=
      natAbs_le_magnitude (List.mem_map_of_mem member)
    rw [Word.Within]
    omega
  · have nonneg := magnitude_nonneg coefficients
    rw [Word.Within]
    omega

theorem encodeWith_eq_pure
    (exact : Word.Exact limit hold)
    {inequality : Inequality}
    (within : inequality.Within limit) :
    inequality.encodeWith hold = pure inequality.thresholdForm := by
  unfold encodeWith thresholdForm
  split
  next positive =>
    rw [LinearForm.encodeAtMostWith_eq_pure exact within.reach within.bound,
      pure_bind]
  next negative =>
    have oppositeWithin : Word.Within limit (-1 - inequality.bound) := by
      have boundWithin := within.bound
      rw [Word.Within] at boundWithin ⊢
      omega
    rw [LinearForm.negatedWith_eq_pure exact within.opposites, pure_bind,
      exact _ oppositeWithin, pure_bind,
      LinearForm.encodeAtMostWith_eq_pure exact
        (inequality.form.reach_negated ▸ within.reach) oppositeWithin, pure_bind]

theorem evalWith_eq_pure
    (exact : Word.Exact limit hold)
    {inequality : Inequality}
    (within : inequality.Within limit)
    {value : String → Int}
    (inside : inequality.form.Inside value) :
    inequality.evalWith hold value = pure (inequality.eval value) := by
  rw [evalWith, LinearForm.evalWith_eq_pure exact within.reach inside, pure_bind,
    eval]

end Inequality

theorem Variable.axiomsWith_eq_pure
    (exact : Word.Exact limit hold)
    {x : Variable}
    (least : -limit - 1 < x.lower)
    (greatest : x.upper ≤ limit) :
    x.axiomsWith hold = pure x.axioms := by
  have previousWithin : ∀ bound, x.lower ≤ bound → bound ≤ x.upper →
      Word.Within limit (bound - 1) :=
    fun bound low high => ⟨by omega, by omega⟩
  have steps : x.domain.mapM (fun bound => do
        let previous ← hold (bound - 1)
        return [(x.atMost previous).negated, x.atMost bound]) =
      pure (x.domain.map x.monotone) := by
    apply mapM_eq_pure_map
    intro bound member
    obtain ⟨low, high⟩ := mem_domain.mp member
    rw [exact _ (previousWithin bound low high), pure_bind]
    rfl
  rw [axiomsWith, exact _ (previousWithin _ (Int.le_refl _) x.lower_le_upper),
    pure_bind, steps, pure_bind]
  rfl

namespace Problem

theorem constraintClausesWith_eq_pure
    {clauses : List (List Inequality)}
    (encodes : ∀ clause ∈ clauses, ∀ inequality ∈ clause,
      inequality.encodeWith hold = pure inequality.thresholdForm)
    (index : Nat) :
    constraintClausesWith hold index clauses =
      pure (constraintCnf index clauses) := by
  induction clauses generalizing index with
  | nil => rfl
  | cons clause rest inductionHypothesis =>
      obtain ⟨clauseEncodes, restEncode⟩ := List.forall_mem_cons.mp encodes
      rw [constraintClausesWith, mapM_eq_pure_map clauseEncodes, pure_bind,
        inductionHypothesis restEncode, pure_bind, constraintCnf]

/-- A problem is encoded exactly when its inequalities and its variables are. -/
theorem encodeWith_eq_pure
    {problem : Problem}
    (encodes : ∀ clause ∈ problem.clauses, ∀ inequality ∈ clause,
      inequality.encodeWith hold = pure inequality.thresholdForm)
    (describes : ∀ x ∈ problem.vars, x.axiomsWith hold = pure x.axioms) :
    problem.encodeWith hold = pure problem.formula := by
  rw [encodeWith, constraintClausesWith_eq_pure encodes, pure_bind,
    mapM_eq_pure_map describes, pure_bind, List.flatMap_map, formula, cnf,
    axiomClauses]

/-- In exact arithmetic, the encoding in a given arithmetic is the encoding. -/
theorem encode_eq_ok_encodeWith (problem : Problem) :
    problem.encode = .ok (problem.encodeWith (m := Id) pure) := by
  have encodes (inequality : Inequality) :
      inequality.encodeWith (m := Id) pure = pure inequality.thresholdForm := by
    obtain ⟨limit, within⟩ := inequality.exists_within
    exact Inequality.encodeWith_eq_pure (Word.exact_pure limit) within
  have describes (x : Variable) : x.axiomsWith (m := Id) pure = pure x.axioms :=
    Variable.axiomsWith_eq_pure
      (Word.exact_pure (x.lower.natAbs + x.upper.natAbs)) (by omega) (by omega)
  rw [encodeWith_eq_pure (fun _ _ inequality _ => encodes inequality)
    fun x _ => describes x]
  exact problem.encode_eq_ok

/-- An arithmetic computes all that encoding and evaluating a problem needs
exactly. -/
structure ComputedBy (hold : Int → m Int) (problem : Problem) : Prop where
  /-- The encoding. -/
  encode : ∃ formula, problem.encode = .ok formula ∧
    problem.encodeWith hold = pure formula
  /-- The bounds of the forms and of their negations. -/
  bounds : ∀ clause ∈ problem.clauses, ∀ inequality ∈ clause,
    ∀ form ∈ [inequality.form, inequality.form.negated],
      form.lowerWith hold = pure form.lower ∧
        form.upperWith hold = pure form.upper
  /-- The truth of the inequalities within the domains. -/
  eval : ∀ value, problem.Inside value →
    ∀ clause ∈ problem.clauses, ∀ inequality ∈ clause,
      inequality.evalWith hold value = pure (inequality.eval value)

theorem WellFormed.computedBy
    {problem : Problem}
    (wellFormed : problem.WellFormed)
    (exact : Word.Exact Word.greatest hold) :
    problem.ComputedBy hold := by
  have within : ∀ clause ∈ problem.clauses, ∀ inequality ∈ clause,
      inequality.Within Word.greatest :=
    fun clause clauseMem inequality inequalityMem =>
      (wellFormed.inequality clauseMem inequalityMem).within
  refine ⟨⟨problem.formula, problem.encode_eq_ok, ?_⟩, ?_, ?_⟩
  · refine encodeWith_eq_pure (fun clause clauseMem inequality inequalityMem =>
      Inequality.encodeWith_eq_pure exact
        (within clause clauseMem inequality inequalityMem)) fun x declared => ?_
    have proper := wellFormed.vars x declared
    exact Variable.axiomsWith_eq_pure exact proper.least_lt_lower
      proper.upper_le_greatest
  · intro clause clauseMem inequality inequalityMem form formMem
    have bounded : form.reach ≤ Word.greatest := by
      have reachFits := (within clause clauseMem inequality inequalityMem).reach
      rcases List.mem_pair.mp formMem with rfl | rfl
      · exact reachFits
      · rwa [LinearForm.reach_negated]
    exact ⟨LinearForm.lowerWith_eq_pure exact bounded,
      LinearForm.upperWith_eq_pure exact bounded⟩
  · intro value inside clause clauseMem inequality inequalityMem
    have proper := wellFormed.inequality clauseMem inequalityMem
    exact Inequality.evalWith_eq_pure exact proper.within (inside.form proper.form)

/-- Exact arithmetic computes the encoding of a problem that is read.  Every integer
that is computed for it is a machine integer, and arithmetic that wraps around
computes the same. -/
theorem computed_within_words
    {text : String}
    {problem : Problem}
    (accepted : Problem.read text = .ok problem) :
    problem.encode = .ok (problem.encodeWith (m := Id) pure) ∧
      problem.ComputedBy Word.check? ∧ problem.ComputedBy (m := Id) Word.wrap :=
  have wellFormed := wellFormed_of_read accepted
  ⟨problem.encode_eq_ok_encodeWith, wellFormed.computedBy Word.exact_check?,
    wellFormed.computedBy Word.exact_wrap⟩

/-- A domain and a bound that end where the machine integers do. -/
theorem computed_within_words_at_ends :
    ∃ problem,
      Problem.read ("x -9223372036854775806 9223372036854775806 " ++
        "[x>=-9223372036854775807 -x<=9223372036854775807]") = .ok problem ∧
      problem.ComputedBy Word.check? ∧
      problem.ComputedBy (m := Id) Word.wrap := by
  let x : Variable :=
    { name := "x"
      lower := -9223372036854775806
      upper := 9223372036854775806 }
  let problem : Problem :=
    { vars := [x]
      clauses :=
        [[⟨.single ⟨x, 1⟩, -9223372036854775808, false⟩,
          ⟨.single ⟨x, -1⟩, 9223372036854775807, true⟩]] }
  have accepted : Problem.read ("x -9223372036854775806 9223372036854775806 " ++
      "[x>=-9223372036854775807 -x<=9223372036854775807]") = .ok problem := by
    decide +kernel
  exact ⟨problem, accepted, (computed_within_words accepted).2⟩

end Problem
end OrderEncoding
