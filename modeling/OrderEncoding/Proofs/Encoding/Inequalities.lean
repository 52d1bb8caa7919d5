import OrderEncoding.Proofs.Encoding.WordRange

/-!
# The encoding of one inequality

A sum of monomials denotes a linear form when its coefficients and values, and
those of its negation, stay within the machine integers.  Then an inequality over
the form is encoded in machine arithmetic, whatever its bound is, and the encoding
means the inequality.
-/

namespace OrderEncoding
namespace Inequality

/-- An inequality over a form that a sum of monomials denotes is well formed over
the variables of the sum. -/
theorem wellFormed_of_ofMonomials
    {terms : List Monomial}
    (coefficients : ∀ term ∈ terms, Word.Fits term.coefficient)
    {form : LinearForm}
    (denotes : LinearForm.ofMonomials terms = .ok form)
    {bound : Int}
    (bound_fits : Word.Fits bound)
    (positive : Bool) :
    WellFormed (terms.map Monomial.var) { form, bound, positive } := by
  have declared : ∀ term ∈ terms, term.var ∈ terms.map Monomial.var :=
    fun term member => List.mem_map_of_mem member
  exact ⟨(LinearForm.wellFormed_of_ofMonomials declared coefficients denotes).1,
    bound_fits⟩

/-- An inequality over any sum of monomials that denotes a form, with any bound and
either sign, is encoded, and no integer overflows on the way.  When the variables
have values of their domains, the encoding holds exactly when the inequality does,
and evaluating the inequality does not overflow either. -/
theorem encode_means_inequality
    {terms : List Monomial}
    (coefficients : ∀ term ∈ terms, Word.Fits term.coefficient)
    {form : LinearForm}
    (denotes : LinearForm.ofMonomials terms = .ok form)
    {bound : Int}
    (bound_fits : Word.Fits bound)
    (positive : Bool) :
    ∃ encoding : ThresholdForm,
      encode { form, bound, positive } = .ok encoding ∧
      encodeWith Word.check? { form, bound, positive } = some encoding ∧
      ∀ value, form.Inside value →
        (encoding.eval value = true ↔
          eval value { form, bound, positive } = true) ∧
        evalWith Word.check? value { form, bound, positive } =
          some (encoding.eval value) := by
  have wellFormed :=
    wellFormed_of_ofMonomials coefficients denotes bound_fits positive
  refine ⟨_, encode_eq_ok _, encodeWith_eq_pure Word.exact_check? wellFormed.within, ?_⟩
  intro value inside
  rw [eval_thresholdForm wellFormed.form.nonzero inside]
  exact ⟨Iff.rfl, evalWith_eq_pure Word.exact_check? wellFormed.within inside⟩

/-- Two monomials of one variable are merged, and the inequality over the sum is
negated. -/
theorem encode_means_inequality_merged_monomials :
    let x : Variable := { name := "x", lower := 0, upper := 2 }
    let y : Variable := { name := "y", lower := -1, upper := 1 }
    let form : LinearForm := { monomials := [⟨x, 3⟩, ⟨y, -3⟩] }
    let inequality : Inequality := { form, bound := -1, positive := false }
    LinearForm.ofMonomials [⟨x, 2⟩, ⟨y, -3⟩, ⟨x, 1⟩] = .ok form ∧
      ∃ encoding, inequality.encode = .ok encoding ∧
        inequality.encodeWith Word.check? = some encoding ∧
        (∀ value, form.Inside value →
          (encoding.eval value = true ↔ inequality.eval value = true)) ∧
        encoding.eval (fun _ => 1) = true := by
  intro x y form inequality
  have denotes : LinearForm.ofMonomials [⟨x, 2⟩, ⟨y, -3⟩, ⟨x, 1⟩] = .ok form :=
    LinearForm.ofMonomials_eq_ok_iff.mpr ⟨_, rfl, rfl, by decide, by decide⟩
  obtain ⟨encoding, encodes, computes, means⟩ := encode_means_inequality
    (by decide) denotes (by decide : Word.Fits (-1)) false
  refine ⟨denotes, encoding, encodes, computes,
    fun value inside => (means value inside).1, ?_⟩
  exact (means (fun _ => 1) (by simp [form, LinearForm.Inside, x, y,
    Variable.Contains])).1.mpr (by decide)

end Inequality
end OrderEncoding
