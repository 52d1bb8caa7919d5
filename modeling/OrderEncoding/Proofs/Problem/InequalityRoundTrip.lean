import OrderEncoding.Proofs.Problem.Printing

/-!
# Reading printed inequalities

An inequality over a sum of declared variables is read back from its text as the
inequality alone.  Only the least machine integer cannot be read back as a bound,
because the digits that are printed for it are no machine integer; then the reader
fails at this number, and reads no other inequality instead.
-/

namespace OrderEncoding

namespace Side

open Written (Term)

/-- A term whose number is no machine integer is not read. -/
theorem readTerm_text_eq_error
    {scope : List Variable}
    {term : Term}
    (proper : term.Proper)
    (overflows : ¬Word.Fits term.size) :
    readTerm scope term.text =
      .error (.expression (String.ofList term.text) .coefficientOutOfRange) := by
  rw [readTerm, parts?_text proper.complete proper.decimal]
  dsimp only
  cases sized : term.parts.size? with
  | none => rfl
  | some size =>
      exact absurd ((parts_size?_eq_some_iff proper.decimal).mp sized).2.1 overflows

/-- The text of an integer whose absolute value is no machine integer is not read. -/
theorem read_ofInt_eq_error
    {scope : List Variable}
    {number : Int}
    (overflows : ¬Word.Fits number.natAbs) :
    read scope (Numeral.ofInt number).toList =
      .error (.expression (Numeral.ofInt number) .coefficientOutOfRange) := by
  have proper := Written.Side.proper_ofNumber number
  have fails : readTerm scope (Term.ofNumber number).text = .error _ :=
    readTerm_text_eq_error (Term.proper_ofNumber number)
      (by rwa [Term.size_ofNumber])
  rw [read, ← Written.Side.text_ofNumber, proper.blankFree.removeBlanks_eq,
    chunks_text proper.terms proper.signed, List.map_singleton]
  dsimp only
  rw [readTerms, fails, Term.text_ofNumber, String.ofList_toList]
  rfl

end Side

/-- A comparison whose right side is not read fails as that side does. -/
theorem Comparison.read_core_eq_error
    {scope : List Variable}
    {literal : Written.Literal}
    (proper : literal.Proper)
    {left : Side}
    (leftReads : Side.read scope literal.left.text = .ok left)
    {failure : Failure}
    (rightFails : Side.read scope literal.right.text = .error failure) :
    Comparison.read scope literal.core = .error failure := by
  rw [Comparison.read, if_neg proper.blankFree_core.not_mem_lineFeed,
    split?_core proper]
  dsimp only
  rw [if_neg (by simp [proper.right.any_isRelationSign]), leftReads, rightFails]
  rfl

/-- A literal whose comparison is not read fails as the comparison does. -/
theorem DisjunctiveForm.read_text_eq_error
    {scope : List Variable}
    {literal : Written.Literal}
    (proper : literal.Proper)
    {failure : Failure}
    (fails : Comparison.read scope literal.core = .error failure) :
    DisjunctiveForm.read scope literal.text = .error failure := by
  rw [read, proper.blankFree.trim_eq, Written.Literal.text,
    WrappedLiteral.unwrap_wrap proper.blankFree_core proper.no_parenthesis,
    WrappedLiteral.toDisjunctive, fails]
  rfl

/-- The least machine integer is printed with digits that are not read back. -/
theorem DisjunctiveForm.read_inequality_text_eq_error
    {scope : List Variable}
    (properScope : ProperScope scope)
    {inequality : Inequality}
    (wellFormed : inequality.WellFormed scope)
    (least : inequality.bound = Word.least) :
    DisjunctiveForm.read scope inequality.text.toList =
      .error (.expression (Numeral.ofInt Word.least) .coefficientOutOfRange) := by
  have proper := Written.Literal.proper_ofInequality properScope wellFormed
  have leftReads : Side.read scope
      (Written.Literal.ofInequality inequality).left.text = .ok _ :=
    Side.read_ofForm properScope wellFormed.form
  have rightFails : Side.read scope
      (Written.Literal.ofInequality inequality).right.text =
        .error (.expression (Numeral.ofInt Word.least) .coefficientOutOfRange) := by
    rw [Written.Literal.ofInequality, Written.Side.text_ofNumber, least]
    exact Side.read_ofInt_eq_error (by decide)
  rw [← Written.Literal.text_ofInequality wellFormed.form.nonzero]
  exact read_text_eq_error proper
    (Comparison.read_core_eq_error proper leftReads rightFails)

/-- An inequality over a sum of declared variables, with any bound and either sign,
is read back from its text as the one conjunction of itself alone when its bound is
above the least machine integer.  With that integer as its bound the text fails as an
expression with a number out of range.  In no case is another form read from it. -/
theorem printed_inequality_read_back
    {scope : List Variable}
    (properScope : ProperScope scope)
    {terms : List Monomial}
    (declared : ∀ term ∈ terms, term.var ∈ scope)
    (coefficients : ∀ term ∈ terms, Word.Fits term.coefficient)
    {form : LinearForm}
    (denotes : LinearForm.ofMonomials terms = .ok form)
    {bound : Int}
    (bound_fits : Word.Fits bound)
    (positive : Bool) :
    let inequality : Inequality := { form, bound, positive }
    (Word.least < bound →
      DisjunctiveForm.read scope inequality.text.toList = .ok [[inequality]]) ∧
    (bound = Word.least →
      DisjunctiveForm.read scope inequality.text.toList =
        .error (.expression (Numeral.ofInt Word.least) .coefficientOutOfRange)) ∧
    ∀ other, DisjunctiveForm.read scope inequality.text.toList = .ok other →
      other = [[inequality]] := by
  intro inequality
  have wellFormed : inequality.WellFormed scope :=
    ⟨(LinearForm.wellFormed_of_ofMonomials declared coefficients denotes).1,
      bound_fits⟩
  refine ⟨?_, ?_, ?_⟩
  · intro aboveLeast
    exact (DisjunctiveForm.read_inequality_text properScope wellFormed).mpr
      ⟨Int.ne_of_gt aboveLeast, rfl⟩
  · intro least
    exact DisjunctiveForm.read_inequality_text_eq_error properScope wellFormed least
  · intro other reads
    exact ((DisjunctiveForm.read_inequality_text properScope wellFormed).mp reads).2

/-- A sum of two variables in which one is merged and one cancels, negated, with a
bound next to the least machine integer, and the same sum with that integer as its
bound. -/
theorem printed_inequality_read_back_at_end :
    let x : Variable := { name := "x", lower := 0, upper := 2 }
    let y : Variable := { name := "y_1", lower := -1, upper := 1 }
    let z : Variable := { name := "Z", lower := 5, upper := 5 }
    let scope := [x, y, z]
    let terms : List Monomial := [⟨x, 1⟩, ⟨z, 4⟩, ⟨y, 1⟩, ⟨x, -2⟩, ⟨z, -4⟩]
    let form : LinearForm := { monomials := [⟨x, -1⟩, ⟨y, 1⟩] }
    let above : Inequality :=
      { form, bound := -9223372036854775807, positive := false }
    let least : Inequality := { above with bound := -9223372036854775808 }
    LinearForm.ofMonomials terms = .ok form ∧
      above.text = "-(-x+y_1<=-9223372036854775807)" ∧
      DisjunctiveForm.read scope above.text.toList = .ok [[above]] ∧
      DisjunctiveForm.read scope least.text.toList =
        .error (.expression "-9223372036854775808" .coefficientOutOfRange) := by
  intro x y z scope terms form above least
  have denotes : LinearForm.ofMonomials terms = .ok form :=
    LinearForm.ofMonomials_eq_ok_iff.mpr ⟨_, rfl, rfl, by decide, by decide⟩
  have properScope : ProperScope scope := ⟨by decide, by decide⟩
  have readsBack := fun {bound} (fits : Word.Fits bound) =>
    printed_inequality_read_back properScope (by decide) (by decide) denotes fits
      false
  refine ⟨denotes, by decide, ?_, ?_⟩
  · exact (readsBack (by decide)).1 (by decide)
  · exact (readsBack (by decide)).2.1 rfl

end OrderEncoding
