import Mathlib.Data.List.Nodup
import OrderEncoding.Proofs.Problem.WellFormed
import OrderEncoding.Proofs.Results
import OrderEncoding.Proofs.Totals

/-!
# Values of linear forms

A monomial takes values between its bounds, and negating a form negates its
value.  Gathering the monomials of a sum keeps the value of the sum and gives a
well-formed form; a form that is well formed already is its own gathering.
-/

namespace OrderEncoding

namespace Monomial

@[simp] theorem eval_negated
    (value : String → Int)
    (term : Monomial) :
    term.negated.eval value = -term.eval value := by
  simp only [eval, negated, Int.neg_mul]

theorem lower_le_eval
    {term : Monomial}
    {value : String → Int}
    (inside : term.var.Contains (value term.var.name)) :
    term.lower ≤ term.eval value := by
  unfold lower eval
  split
  next positive =>
    exact Int.mul_le_mul_of_nonneg_left inside.1 (Int.le_of_lt positive)
  next nonpositive =>
    exact Int.mul_le_mul_of_nonpos_left (by omega) inside.2

theorem eval_le_upper
    {term : Monomial}
    {value : String → Int}
    (inside : term.var.Contains (value term.var.name)) :
    term.eval value ≤ term.upper := by
  unfold upper eval
  split
  next positive =>
    exact Int.mul_le_mul_of_nonneg_left inside.2 (Int.le_of_lt positive)
  next nonpositive =>
    exact Int.mul_le_mul_of_nonpos_left (by omega) inside.1

theorem checked_eq_ok_iff
    {term result : Monomial} :
    term.checked = .ok result ↔
      (term.coefficient ≠ 0 ∧ term.Representable) ∧ term = result := by
  rw [checked]
  split
  · simp_all
  · split <;> simp_all

end Monomial

namespace LinearForm

@[simp] theorem eval_negated
    (value : String → Int)
    (form : LinearForm) :
    form.negated.eval value = -form.eval value := by
  simp only [eval, negated, List.map_map]
  rw [← total_map_neg]
  exact congrArg total (List.map_congr_left fun term _ =>
    Monomial.eval_negated value term)

theorem Nonzero.negated
    {form : LinearForm}
    (nonzero : form.Nonzero) :
    form.negated.Nonzero := by
  intro term member
  obtain ⟨original, originalMem, rfl⟩ := List.mem_map.mp member
  exact Int.neg_ne_zero.mpr (nonzero original originalMem)

theorem Inside.negated
    {form : LinearForm}
    {value : String → Int}
    (inside : form.Inside value) :
    form.negated.Inside value := by
  intro term member
  obtain ⟨original, originalMem, rfl⟩ := List.mem_map.mp member
  exact inside original originalMem

theorem Inside.lower_le_eval
    {form : LinearForm}
    {value : String → Int}
    (inside : form.Inside value) :
    form.lower ≤ form.eval value := by
  apply total_le_total
  rw [List.forall₂_map_left_iff, List.forall₂_map_right_iff, List.forall₂_same]
  exact fun term member => Monomial.lower_le_eval (inside term member)

theorem Inside.eval_le_upper
    {form : LinearForm}
    {value : String → Int}
    (inside : form.Inside value) :
    form.eval value ≤ form.upper := by
  apply total_le_total
  rw [List.forall₂_map_left_iff, List.forall₂_map_right_iff, List.forall₂_same]
  exact fun term member => Monomial.eval_le_upper (inside term member)

/-- What gathering does with a monomial: a new variable goes to the end, and a
known one is merged with the first monomial that it has. -/
theorem gather_cases
    {terms gathered : List Monomial}
    {term : Monomial}
    (gathers : gather terms term = .ok gathered) :
    (term.var.name ∉ terms.map (·.var.name) ∧ gathered = terms ++ [term]) ∨
      ∃ before first after, terms = before ++ first :: after ∧
        first.var.name = term.var.name ∧
        Word.Fits (first.coefficient + term.coefficient) ∧
        gathered = before ++ { first with
          coefficient := first.coefficient + term.coefficient } :: after := by
  induction terms generalizing gathered with
  | nil =>
      obtain rfl := Except.ok.inj gathers
      exact .inl ⟨List.not_mem_nil, rfl⟩
  | cons first rest inductionHypothesis =>
      rw [gather] at gathers
      by_cases sameName : first.var.name = term.var.name
      · rw [if_pos sameName] at gathers
        split at gathers
        · rename_i fits
          obtain rfl := Except.ok.inj gathers
          exact .inr ⟨[], first, rest, rfl, sameName, fits, rfl⟩
        · contradiction
      · rw [if_neg sameName] at gathers
        obtain ⟨others, restGathers, rfl⟩ := Results.map_eq_ok_iff.mp gathers
        rcases inductionHypothesis restGathers with
          ⟨fresh, rfl⟩ | ⟨before, merged, after, rfl, mergedName, fits, rfl⟩
        · refine .inl ⟨?_, rfl⟩
          rw [List.map_cons, List.mem_cons]
          exact not_or.mpr ⟨Ne.symm sameName, fresh⟩
        · exact .inr
            ⟨first :: before, merged, after, rfl, mergedName, fits, rfl⟩

theorem gather_of_fresh
    {terms : List Monomial}
    {term : Monomial}
    (fresh : term.var.name ∉ terms.map (·.var.name)) :
    gather terms term = .ok (terms ++ [term]) := by
  induction terms with
  | nil => rfl
  | cons first rest inductionHypothesis =>
      rw [List.map_cons, List.mem_cons, not_or] at fresh
      rw [gather, if_neg (Ne.symm fresh.1), inductionHypothesis fresh.2]
      rfl

/-- Gathering a monomial adds its value. -/
theorem total_gather
    {terms gathered : List Monomial}
    {term : Monomial}
    (gathers : gather terms term = .ok gathered)
    (value : String → Int) :
    total (gathered.map (Monomial.eval value)) =
      total (terms.map (Monomial.eval value)) + term.eval value := by
  rcases gather_cases gathers with
    ⟨_, rfl⟩ | ⟨before, first, after, rfl, sameName, _, rfl⟩
  · simp
  · simp only [List.map_append, List.map_cons, total_append, total_cons,
      Monomial.eval, sameName, Int.add_mul]
    omega

/-- Monomials over declared variables, one for each, with machine integers as
coefficients. -/
structure Gathered (scope : List Variable) (terms : List Monomial) : Prop where
  declared : ∀ term ∈ terms, term.var ∈ scope
  fits : ∀ term ∈ terms, Word.Fits term.coefficient
  names_nodup : (terms.map (·.var.name)).Nodup

theorem Gathered.gather
    {scope : List Variable}
    {terms gathered : List Monomial}
    (before : Gathered scope terms)
    {term : Monomial}
    (declared : term.var ∈ scope)
    (fits : Word.Fits term.coefficient)
    (gathers : LinearForm.gather terms term = .ok gathered) :
    Gathered scope gathered := by
  rcases gather_cases gathers with
    ⟨fresh, rfl⟩ | ⟨front, first, after, rfl, _, sumFits, rfl⟩
  · constructor
    · exact List.forall_mem_append.mpr
        ⟨before.declared, List.forall_mem_singleton.mpr declared⟩
    · exact List.forall_mem_append.mpr
        ⟨before.fits, List.forall_mem_singleton.mpr fits⟩
    · rw [List.map_append, List.nodup_append]
      refine ⟨before.names_nodup, List.nodup_singleton _, ?_⟩
      rintro name known other new rfl
      rw [List.map_singleton, List.mem_singleton] at new
      exact fresh (new ▸ known)
  · obtain ⟨frontDeclared, restDeclared⟩ :=
      List.forall_mem_append.mp before.declared
    obtain ⟨firstDeclared, afterDeclared⟩ := List.forall_mem_cons.mp restDeclared
    obtain ⟨frontFits, restFits⟩ := List.forall_mem_append.mp before.fits
    constructor
    · exact List.forall_mem_append.mpr
        ⟨frontDeclared, List.forall_mem_cons.mpr ⟨firstDeclared, afterDeclared⟩⟩
    · exact List.forall_mem_append.mpr ⟨frontFits,
        List.forall_mem_cons.mpr ⟨sumFits, (List.forall_mem_cons.mp restFits).2⟩⟩
    · simpa using before.names_nodup

/-- Gathering a list of monomials adds their values and keeps the sum
gathered. -/
theorem Gathered.foldlM
    {scope : List Variable}
    {terms start gathered : List Monomial}
    (before : Gathered scope start)
    (declared : ∀ term ∈ terms, term.var ∈ scope)
    (fits : ∀ term ∈ terms, Word.Fits term.coefficient)
    (gathers : terms.foldlM LinearForm.gather start = .ok gathered) :
    Gathered scope gathered ∧ ∀ value,
      total (gathered.map (Monomial.eval value)) =
        total (start.map (Monomial.eval value)) +
          total (terms.map (Monomial.eval value)) := by
  induction terms generalizing start with
  | nil =>
      obtain rfl := Except.ok.inj gathers
      exact ⟨before, fun value => (Int.add_zero _).symm⟩
  | cons term rest inductionHypothesis =>
      rw [List.foldlM_cons] at gathers
      obtain ⟨next, step, steps⟩ := Results.bind_eq_ok_iff.mp gathers
      obtain ⟨after, sums⟩ := inductionHypothesis
        (before.gather (declared term (.head _)) (fits term (.head _)) step)
        (fun other member => declared other (.tail _ member))
        (fun other member => fits other (.tail _ member)) steps
      refine ⟨after, ?_⟩
      intro value
      rw [sums, total_gather step, List.map_cons, total_cons, Int.add_assoc]

theorem foldlM_gather_of_nodup
    {terms start : List Monomial}
    (nodup : ((start ++ terms).map (·.var.name)).Nodup) :
    terms.foldlM gather start = .ok (start ++ terms) := by
  induction terms generalizing start with
  | nil => rw [List.append_nil]; rfl
  | cons term rest inductionHypothesis =>
      have fresh : term.var.name ∉ start.map (·.var.name) := by
        rw [List.map_append, List.nodup_append] at nodup
        exact fun known => nodup.2.2 _ known _ (.head _) rfl
      rw [List.append_cons] at nodup ⊢
      rw [List.foldlM_cons, gather_of_fresh fresh]
      exact inductionHypothesis nodup

theorem total_filter_nonzero
    (value : String → Int)
    (terms : List Monomial) :
    total ((terms.filter (·.coefficient ≠ 0)).map (Monomial.eval value)) =
      total (terms.map (Monomial.eval value)) := by
  induction terms with
  | nil => rfl
  | cons term rest inductionHypothesis =>
      by_cases zero : term.coefficient = 0
      · rw [List.filter_cons_of_neg (by simpa using zero), inductionHypothesis]
        simp [Monomial.eval, zero]
      · rw [List.filter_cons_of_pos (by simpa using zero), List.map_cons,
          List.map_cons, total_cons, total_cons, inductionHypothesis]

/-- When a sum of monomials denotes a form. -/
theorem ofMonomials_eq_ok_iff
    {terms : List Monomial}
    {form : LinearForm} :
    ofMonomials terms = .ok form ↔
      ∃ gathered, terms.foldlM gather [] = .ok gathered ∧
        form.monomials = gathered.filter (·.coefficient ≠ 0) ∧
        (∀ term ∈ form.monomials, term.Representable) ∧
        form.reach ≤ Word.greatest := by
  rw [ofMonomials, Results.bind_eq_ok_iff]
  refine exists_congr fun gathered => and_congr_right fun _ => ?_
  rw [Results.bind_eq_ok_iff]
  constructor
  · rintro ⟨monomials, checks, rest⟩
    rw [Results.mapM_eq_ok_iff] at checks
    have checked : List.Forall₂
        (fun term result => term.Representable ∧ term = result)
        (gathered.filter (·.coefficient ≠ 0)) monomials :=
      checks.imp fun term result ok =>
        (Monomial.checked_eq_ok_iff.mp ok).imp And.right id
    obtain rfl : gathered.filter (·.coefficient ≠ 0) = monomials :=
      List.forall₂_eq_eq_eq ▸ checked.imp fun _ _ both => both.2
    dsimp only at rest
    split at rest
    · obtain rfl := Except.ok.inj rest
      refine ⟨rfl, ?_, by assumption⟩
      exact fun term member =>
        (List.forall₂_same.mp checked term member).1
    · contradiction
  · rintro ⟨kept, representable, reach_le⟩
    refine ⟨form.monomials, ?_, if_pos reach_le⟩
    rw [← kept, Results.mapM_eq_ok_iff, List.forall₂_same]
    intro term member
    refine Monomial.checked_eq_ok_iff.mpr ⟨⟨?_, representable term member⟩, rfl⟩
    rw [kept, List.mem_filter] at member
    exact of_decide_eq_true member.2

/-- A sum of monomials over declared variables denotes a well-formed form of the
same value. -/
theorem wellFormed_of_ofMonomials
    {scope : List Variable}
    {terms : List Monomial}
    {form : LinearForm}
    (declared : ∀ term ∈ terms, term.var ∈ scope)
    (fits : ∀ term ∈ terms, Word.Fits term.coefficient)
    (denotes : ofMonomials terms = .ok form) :
    form.WellFormed scope ∧ ∀ value,
      form.eval value = total (terms.map (Monomial.eval value)) := by
  obtain ⟨gathered, gathers, kept, representable, reach_le⟩ :=
    ofMonomials_eq_ok_iff.mp denotes
  have start : Gathered scope [] := ⟨by simp, by simp, by simp⟩
  obtain ⟨ofScope, sums⟩ := start.foldlM declared fits gathers
  constructor
  · refine ⟨?_, ?_, ?_, ?_, representable, reach_le⟩
    · intro term member
      rw [kept] at member
      exact ofScope.declared term (List.mem_filter.mp member).1
    · intro term member
      rw [kept] at member
      exact ofScope.fits term (List.mem_filter.mp member).1
    · rw [kept]
      exact ofScope.names_nodup.sublist (List.filter_sublist.map _)
    · intro term member
      rw [kept, List.mem_filter] at member
      exact of_decide_eq_true member.2
  · intro value
    rw [eval, kept, total_filter_nonzero, sums, List.map_nil, total_nil,
      Int.zero_add]

/-- A well-formed form is denoted by its own monomials. -/
theorem WellFormed.ofMonomials_monomials
    {scope : List Variable}
    {form : LinearForm}
    (wellFormed : form.WellFormed scope) :
    ofMonomials form.monomials = .ok form := by
  refine ofMonomials_eq_ok_iff.mpr ⟨form.monomials, ?_, ?_,
    wellFormed.representable, wellFormed.reach_le⟩
  · exact foldlM_gather_of_nodup wellFormed.names_nodup
  · rw [eq_comm, List.filter_eq_self]
    exact fun term member => decide_eq_true (wellFormed.nonzero term member)

end LinearForm
end OrderEncoding
