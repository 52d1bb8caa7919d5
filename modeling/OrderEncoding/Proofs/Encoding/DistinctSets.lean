import OrderEncoding.Encoding.Axioms
import OrderEncoding.Proofs.Encoding.Linear

/-!
# Disjunctions as sets of thresholds

A disjunction is dropped from a form exactly when an earlier one is equal to it as a
set.  The key by which this is found out is the disjunction sorted and with
neighbours that repeat erased; two keys are the same list exactly when the
disjunctions are the same set.
-/

namespace OrderEncoding

namespace Threshold

/-- A threshold does not come after another one in the order. -/
def notAfter (left right : Threshold) : Bool :=
  (order left right).isLE

theorem notAfter_trans
    (first second third : Threshold)
    (ascends : notAfter first second = true)
    (ascendsNext : notAfter second third = true) :
    notAfter first third = true :=
  Std.TransCmp.isLE_trans ascends ascendsNext

theorem notAfter_total (left right : Threshold) :
    (notAfter left right || notAfter right left) = true := by
  have swapped : order right left = (order left right).swap :=
    Std.OrientedCmp.eq_swap
  rw [notAfter, notAfter, swapped]
  cases order left right <;> rfl

theorem before_of_notAfter
    {left right : Threshold}
    (ascends : notAfter left right = true)
    (different : left ≠ right) :
    Before left right := by
  rw [notAfter, Ordering.isLE_iff_eq_lt_or_eq_eq] at ascends
  exact ascends.resolve_right fun same => different (order_eq_iff.mp same)

/-- Erasing neighbours that repeat leaves an increasing list with the same
members. -/
theorem exists_eraseRepsBy_loop
    {first : Threshold}
    {rest : List Threshold}
    (ascending : (first :: rest).Pairwise fun left right =>
      notAfter left right = true)
    (erased : List Threshold) :
    ∃ others,
      List.eraseRepsBy.loop (· == ·) first rest erased =
        erased.reverse ++ others ∧
      others.Pairwise Before ∧
      ∀ threshold, threshold ∈ others ↔ threshold ∈ first :: rest := by
  induction rest generalizing first erased with
  | nil =>
      exact ⟨[first], by simp [List.eraseRepsBy.loop],
        List.pairwise_singleton _ _, fun _ => Iff.rfl⟩
  | cons second rest inductionHypothesis =>
      obtain ⟨firstNotAfter, restAscending⟩ := List.pairwise_cons.mp ascending
      rw [List.eraseRepsBy.loop]
      -- A neighbour that repeats is passed over; otherwise the first one is kept,
      -- and it comes before all that is left, since that ascends from the second.
      cases repeats : first == second with
      | true =>
          obtain rfl := beq_iff_eq.mp repeats
          obtain ⟨others, loop, increasing, members⟩ :=
            inductionHypothesis restAscending erased
          exact ⟨others, loop, increasing, by simp [members]⟩
      | false =>
          obtain ⟨others, loop, increasing, members⟩ :=
            inductionHypothesis restAscending (first :: erased)
          have different : first ≠ second := beq_eq_false_iff_ne.mp repeats
          have before : Before first second :=
            before_of_notAfter (firstNotAfter second (.head _)) different
          refine ⟨first :: others, by simp [loop], ?_, by simp [members]⟩
          refine List.pairwise_cons.mpr ⟨fun threshold member => ?_, increasing⟩
          rcases List.mem_cons.mp ((members threshold).mp member) with
            rfl | inRest
          · exact before
          · have next := (List.pairwise_cons.mp restAscending).1 threshold inRest
            by_cases same : second = threshold
            · exact same ▸ before
            · exact before.trans (before_of_notAfter next same)

/-- Inserting the thresholds one after the other gives the list that sorting them
all, and erasing neighbours that repeat, does. -/
theorem sorted_eq_eraseReps_mergeSort (disjunction : List Threshold) :
    sorted disjunction = (disjunction.mergeSort notAfter).eraseReps := by
  have ascending : (disjunction.mergeSort notAfter).Pairwise fun left right =>
      notAfter left right = true :=
    List.pairwise_mergeSort notAfter_trans notAfter_total disjunction
  have members : ∀ threshold, threshold ∈ disjunction.mergeSort notAfter ↔
      threshold ∈ disjunction := fun _ => List.mem_mergeSort
  cases merged : disjunction.mergeSort notAfter with
  | nil =>
      rw [merged] at members
      apply eq_of_pairwise_of_mem_iff (pairwise_sorted disjunction) .nil
      intro threshold
      rw [mem_sorted, ← members]
  | cons first rest =>
      rw [merged] at ascending members
      obtain ⟨others, loop, increasing, othersMembers⟩ :=
        exists_eraseRepsBy_loop ascending []
      rw [List.eraseReps, List.eraseRepsBy, loop]
      apply eq_of_pairwise_of_mem_iff (pairwise_sorted disjunction) increasing
      intro threshold
      rw [mem_sorted, othersMembers, members]

end Threshold

namespace ThresholdForm

/-- The disjunctions that are not equal as sets to an earlier one, in order. -/
def firstOfEachSet (form : ThresholdForm) : ThresholdForm :=
  (form.zipIdx.filter fun (disjunction, place) =>
    (form.take place).all fun earlier =>
      earlier.toFinset ≠ disjunction.toFinset).map Prod.fst

/-- The keys seen are the keys of the earlier disjunctions, as far as sets go. -/
def KeysOf (seen : List (List Threshold)) (earlier : ThresholdForm) : Prop :=
  ∀ disjunction, Threshold.sorted disjunction ∈ seen ↔
    ∃ other ∈ earlier, other.toFinset = disjunction.toFinset

namespace KeysOf

variable {seen : List (List Threshold)} {earlier : ThresholdForm}

theorem mem_append_iff
    (keys : KeysOf seen earlier)
    (disjunction other : List Threshold) :
    (∃ before ∈ earlier ++ [disjunction], before.toFinset = other.toFinset) ↔
      Threshold.sorted other ∈ seen ∨ disjunction.toFinset = other.toFinset := by
  simp only [List.mem_append, List.mem_singleton, or_and_right, exists_or,
    exists_eq_left, keys other]

/-- A disjunction whose key was seen adds no key. -/
theorem append_of_mem
    (keys : KeysOf seen earlier)
    {disjunction : List Threshold}
    (repeated : Threshold.sorted disjunction ∈ seen) :
    KeysOf seen (earlier ++ [disjunction]) := by
  intro other
  rw [keys.mem_append_iff]
  refine (or_iff_left_of_imp fun same => ?_).symm
  rwa [← Threshold.sorted_eq_sorted_iff.mpr same]

theorem append
    (keys : KeysOf seen earlier)
    (disjunction : List Threshold) :
    KeysOf (Threshold.sorted disjunction :: seen) (earlier ++ [disjunction]) := by
  intro other
  rw [keys.mem_append_iff, List.mem_cons, Threshold.sorted_eq_sorted_iff, or_comm,
    eq_comm (a := other.toFinset)]

theorem all_ne_iff
    (keys : KeysOf seen earlier)
    (disjunction : List Threshold) :
    earlier.all (fun other => other.toFinset ≠ disjunction.toFinset) = true ↔
      Threshold.sorted disjunction ∉ seen := by
  rw [keys]
  simp

end KeysOf

/-- If the keys seen are those of the earlier disjunctions, then those that are kept
are equal as sets to none that stands before them. -/
theorem distinctFrom_eq_filter
    {seen : List (List Threshold)}
    {earlier : ThresholdForm}
    (keys : KeysOf seen earlier)
    (form : ThresholdForm) :
    distinctFrom seen form =
      ((form.zipIdx earlier.length).filter fun (disjunction, place) =>
        ((earlier ++ form).take place).all fun other =>
          other.toFinset ≠ disjunction.toFinset).map Prod.fst := by
  induction form generalizing seen earlier with
  | nil => rfl
  | cons disjunction rest inductionHypothesis =>
      -- The first disjunction becomes the last of the earlier ones.
      have regrouped : earlier ++ disjunction :: rest =
          (earlier ++ [disjunction]) ++ rest := by simp
      have advanced : earlier.length + 1 = (earlier ++ [disjunction]).length := by
        simp
      rw [List.zipIdx_cons, List.filter_cons]
      simp only [distinctFrom, List.take_left, keys.all_ne_iff]
      rw [regrouped, advanced]
      split
      next repeated => exact inductionHypothesis (keys.append_of_mem repeated)
      next new =>
        rw [List.map_cons]
        exact congrArg _ (inductionHypothesis (keys.append disjunction))

theorem distinct_eq_firstOfEachSet (form : ThresholdForm) :
    form.distinct = form.firstOfEachSet := by
  have keys : KeysOf [] [] := fun disjunction => by simp
  rw [distinct, distinctFrom_eq_filter keys form]
  rfl

theorem sorted_notMem_of_mem_distinctFrom
    {seen : List (List Threshold)}
    {form : ThresholdForm}
    {disjunction : List Threshold}
    (member : disjunction ∈ distinctFrom seen form) :
    Threshold.sorted disjunction ∉ seen := by
  induction form generalizing seen with
  | nil => contradiction
  | cons first rest inductionHypothesis =>
      simp only [distinctFrom] at member
      split at member
      next repeated => exact inductionHypothesis member
      next new =>
        rcases List.mem_cons.mp member with rfl | inRest
        · exact new
        · exact fun old => inductionHypothesis inRest (.tail _ old)

/-- No two of the disjunctions that are kept are equal as sets. -/
theorem pairwise_distinctFrom
    (seen : List (List Threshold))
    (form : ThresholdForm) :
    (distinctFrom seen form).Pairwise fun left right =>
      left.toFinset ≠ right.toFinset := by
  induction form generalizing seen with
  | nil => exact .nil
  | cons first rest inductionHypothesis =>
      simp only [distinctFrom]
      split
      next repeated => exact inductionHypothesis seen
      next new =>
        refine List.pairwise_cons.mpr
          ⟨fun later member same => ?_, inductionHypothesis _⟩
        apply sorted_notMem_of_mem_distinctFrom member
        rw [Threshold.sorted_eq_sorted_iff.mpr same]
        exact .head _

/-- A disjunction was seen before, or one that is equal to it as a set is kept. -/
theorem exists_mem_distinctFrom
    (seen : List (List Threshold))
    {form : ThresholdForm}
    {disjunction : List Threshold}
    (member : disjunction ∈ form) :
    Threshold.sorted disjunction ∈ seen ∨
      ∃ kept ∈ distinctFrom seen form,
        kept.toFinset = disjunction.toFinset := by
  induction form generalizing seen with
  | nil => contradiction
  | cons first rest inductionHypothesis =>
      simp only [distinctFrom]
      split
      next repeated =>
        rcases List.mem_cons.mp member with rfl | inRest
        · exact .inl repeated
        · exact inductionHypothesis seen inRest
      next new =>
        rcases List.mem_cons.mp member with rfl | inRest
        · exact .inr ⟨_, .head _, rfl⟩
        · rcases inductionHypothesis (Threshold.sorted first :: seen) inRest with
            old | ⟨kept, keptMem, same⟩
          · rcases List.mem_cons.mp old with equal | before
            · exact .inr ⟨first, .head _,
                (Threshold.sorted_eq_sorted_iff.mp equal).symm⟩
            · exact .inl before
          · exact .inr ⟨kept, .tail _ keptMem, same⟩

/-- Of a conjunction of disjunctions those are left, in order, that are not equal as
sets of thresholds to an earlier one.  No two of them are equal as sets, and each
disjunction of the conjunction is equal as a set to one of them.  The conjunction of
those that are left has the same truth value, whatever truth values the thresholds
are given.  The key that disjunctions are compared by is what sorting them and erasing
neighbours that repeat gives.  In particular, no two disjunctions of the encoding of
an inequality are equal as sets. -/
theorem distinct_drops_repeated_sets
    (form : ThresholdForm)
    (inequality : Inequality) :
    form.distinct = form.firstOfEachSet ∧
      form.distinct.Sublist form ∧
      form.distinct.Pairwise (fun left right => left.toFinset ≠ right.toFinset) ∧
      (∀ disjunction ∈ form,
        ∃ kept ∈ form.distinct, kept.toFinset = disjunction.toFinset) ∧
      (∀ holds : Threshold → Bool,
        form.distinct.all (·.any holds) = form.all (·.any holds)) ∧
      (∀ disjunction : List Threshold, Threshold.sorted disjunction =
        (disjunction.mergeSort Threshold.notAfter).eraseReps) ∧
      ∃ encoding : ThresholdForm, inequality.encode = .ok encoding ∧
        encoding.Pairwise fun left right => left.toFinset ≠ right.toFinset := by
  refine ⟨distinct_eq_firstOfEachSet form, distinct_sublist form,
    pairwise_distinctFrom [] form, fun disjunction member => ?_,
    fun holds => all_distinct holds form,
    Threshold.sorted_eq_eraseReps_mergeSort, inequality.thresholdForm,
    inequality.encode_eq_ok, pairwise_distinctFrom [] _⟩
  exact (exists_mem_distinctFrom [] member).resolve_left List.not_mem_nil

/-- A disjunction that comes a second time in another order, with a threshold
repeated, is dropped, and one of fewer thresholds is not. -/
theorem distinct_drops_repeated_sets_reordered :
    let x : Variable := { name := "x", lower := 0, upper := 2 }
    let y : Variable := { name := "y", lower := 0, upper := 2 }
    let form : ThresholdForm :=
      [[x.atMost 0, y.atMost 1], [y.atMost 1, x.atMost 0, y.atMost 1],
        [x.atMost 0]]
    form.distinct = [[x.atMost 0, y.atMost 1], [x.atMost 0]] ∧
      [y.atMost 1, x.atMost 0, y.atMost 1] ∈ form ∧
      ∃ kept ∈ form.distinct,
        kept.toFinset = [y.atMost 1, x.atMost 0, y.atMost 1].toFinset := by
  intro x y form
  obtain ⟨first, _, _, covered, _⟩ := distinct_drops_repeated_sets form
    { form := { monomials := [⟨x, 1⟩] }, bound := 0 }
  have member : [y.atMost 1, x.atMost 0, y.atMost 1] ∈ form := .tail _ (.head _)
  refine ⟨?_, member, covered _ member⟩
  rw [first]
  decide

end ThresholdForm
end OrderEncoding
