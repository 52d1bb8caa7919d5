import OrderEncoding.Proofs.Problem.Literals
import OrderEncoding.Proofs.Repetitions
import OrderEncoding.Proofs.Text.Numerals

/-!
# Printed inequalities

The text of an inequality is the text of a proper literal.  It is read back as
the inequality alone, unless the bound is the least machine integer: the number
that is printed for it without its sign is none.
-/

namespace OrderEncoding

/-- Variables with distinct proper names. -/
structure ProperScope (scope : List Variable) : Prop where
  names_nodup : (scope.map Variable.name).Nodup
  identifiers : ∀ x ∈ scope, isIdentifier x.name.toList = true

theorem ProperScope.find?_eq_some
    {scope : List Variable}
    (proper : ProperScope scope)
    {x : Variable}
    (declared : x ∈ scope) :
    scope.find? (·.name = String.ofList x.name.toList) = some x := by
  rw [String.ofList_toList]
  exact find?_eq_some_of_nodup proper.names_nodup declared

namespace Side

theorem constantsFit_monomials
    {constant : Int}
    (fits : Word.Fits constant)
    (monomials : List Monomial) :
    ConstantsFit constant (monomials.map .monomial) := by
  induction monomials with
  | nil => exact constantsFit_nil_iff.mpr fits
  | cons first rest inductionHypothesis =>
      exact constantsFit_monomial_cons_iff.mpr inductionHypothesis

theorem ofTerms_monomials
    (constant : Int)
    (monomials : List Monomial) :
    ofTerms constant (monomials.map .monomial) = { monomials, constant } := by
  have noConstants : (monomials.map SideTerm.monomial).filterMap
      SideTerm.constant? = [] := by
    simp [List.filterMap_eq_nil_iff, SideTerm.constant?]
  have allMonomials : (monomials.map SideTerm.monomial).filterMap
      SideTerm.monomial? = monomials := by
    rw [List.filterMap_map]
    exact List.filterMap_some
  rw [ofTerms, noConstants, allMonomials, total_nil, Int.add_zero]

end Side

namespace Written

namespace Term

/-- The term that is written for a number. -/
def ofNumber (number : Int) : Term :=
  { sign := if number < 0 then some .minus else none
    digits := Nat.toDigits 10 number.natAbs }

/-- The term that is written for a monomial, which has a sign in any case if it
follows another one. -/
def ofMonomial (follows : Bool) (term : Monomial) : Term :=
  { sign :=
      if term.coefficient < 0 then some .minus
      else if follows then some .plus
      else none
    digits :=
      if term.coefficient.natAbs = 1 then []
      else Nat.toDigits 10 term.coefficient.natAbs
    name := term.var.name.toList }

theorem text_ofNumber (number : Int) :
    (ofNumber number).text = (Numeral.ofInt number).toList := by
  rw [Numeral.toList_ofInt, Numeral.mark, text, mark, body, factor, ofNumber]
  split <;> simp [Sign.character]

theorem text_ofMonomial (term : Monomial) :
    (ofMonomial false term).text = term.text.toList := by
  unfold Monomial.text
  rw [text, mark, body, factor, ofMonomial]
  by_cases one : term.coefficient = 1
  · simp [one]
  by_cases minusOne : term.coefficient = -1
  · simp [minusOne, Sign.character]
  rw [if_neg one, if_neg minusOne, String.toList_append, Numeral.toList_ofInt,
    Numeral.mark]
  split <;> simp [Sign.character] <;> omega

theorem text_ofMonomial_following
    {term : Monomial}
    (nonzero : term.coefficient ≠ 0) :
    (ofMonomial true term).text = (LinearForm.followingText term).toList := by
  unfold LinearForm.followingText
  split
  · rename_i positive
    have first := text_ofMonomial term
    have notNegative : ¬term.coefficient < 0 := by omega
    rw [String.toList_append, ← first]
    simp [text, mark, body, factor, ofMonomial, notNegative, Sign.character]
  · have negative : term.coefficient < 0 := by omega
    rw [← text_ofMonomial]
    simp [text, mark, body, factor, ofMonomial, negative]

theorem size_ofNumber (number : Int) :
    (ofNumber number).size = number.natAbs := by
  rw [size, ofNumber]
  dsimp only
  rw [if_neg Nat.toDigits_ne_nil, Nat.ofDigitChars_ten_toDigits]

theorem coefficient_ofNumber (number : Int) :
    (ofNumber number).coefficient = number := by
  rw [coefficient, size_ofNumber, ofNumber]
  by_cases negative : number < 0
  · rw [if_pos (by simp [negative])]
    omega
  · rw [if_neg (by simp [negative])]
    omega

theorem size_ofMonomial (follows : Bool) (term : Monomial) :
    (ofMonomial follows term).size = term.coefficient.natAbs := by
  rw [size, ofMonomial]
  by_cases one : term.coefficient.natAbs = 1
  · rw [if_pos (by simp [one]), one]
  · dsimp only
    rw [if_neg one, if_neg Nat.toDigits_ne_nil, Nat.ofDigitChars_ten_toDigits]

theorem coefficient_ofMonomial (follows : Bool) (term : Monomial) :
    (ofMonomial follows term).coefficient = term.coefficient := by
  rw [coefficient, size_ofMonomial, ofMonomial]
  by_cases negative : term.coefficient < 0
  · rw [if_pos (by simp [negative])]
    omega
  · rw [if_neg (by cases follows <;> simp [negative])]
    omega

theorem proper_ofNumber (number : Int) : (ofNumber number).Proper :=
  ⟨Numeral.all_isDigit_toDigits _, .inl ⟨rfl, Nat.toDigits_ne_nil, rfl⟩⟩

theorem proper_ofMonomial
    {term : Monomial}
    (identifier : isIdentifier term.var.name.toList = true)
    (follows : Bool) :
    (ofMonomial follows term).Proper := by
  refine ⟨?_, .inr identifier⟩
  rw [ofMonomial]
  dsimp only
  split
  · rfl
  · exact Numeral.all_isDigit_toDigits _

theorem denotes_ofNumber
    {scope : List Variable}
    {number : Int}
    (fits : Word.Fits number.natAbs) :
    (ofNumber number).Denotes scope (.constant number) := by
  have denotes : (ofNumber number).Denotes scope
      (.constant (ofNumber number).coefficient) :=
    .constant rfl (by rwa [size_ofNumber])
  rwa [coefficient_ofNumber] at denotes

theorem denotes_ofMonomial
    {scope : List Variable}
    (proper : ProperScope scope)
    {term : Monomial}
    (declared : term.var ∈ scope)
    (fits : Word.Fits term.coefficient.natAbs)
    (nonzero : term.coefficient ≠ 0)
    (follows : Bool) :
    (ofMonomial follows term).Denotes scope (.monomial term) := by
  have named : (ofMonomial follows term).name ≠ [] := by
    intro empty
    have empty : term.var.name.toList = [] := empty
    have identifier := proper.identifiers term.var declared
    rw [empty] at identifier
    contradiction
  have denotes : (ofMonomial follows term).Denotes scope
      (.monomial { term with
        coefficient := (ofMonomial follows term).coefficient }) :=
    .monomial term.var named (by rwa [size_ofMonomial])
      (by rwa [coefficient_ofMonomial]) (proper.find?_eq_some declared)
  rwa [coefficient_ofMonomial] at denotes

end Term

namespace Side

theorem proper_ofNumber (number : Int) : Proper [.ofNumber number] :=
  ⟨List.cons_ne_nil _ _,
    List.forall_mem_singleton.mpr (Term.proper_ofNumber number), by simp⟩

theorem text_ofNumber (number : Int) :
    text [.ofNumber number] = (Numeral.ofInt number).toList := by
  rw [text, List.flatMap_singleton, Term.text_ofNumber]

/-- The side that is written for a form. -/
def ofForm (form : LinearForm) : Side :=
  match form.monomials with
  | [] => [.ofNumber 0]
  | first :: rest => .ofMonomial false first :: rest.map (.ofMonomial true)

theorem text_ofForm
    {form : LinearForm}
    (nonzero : form.Nonzero) :
    (ofForm form).text = form.text.toList := by
  obtain ⟨monomials⟩ := form
  cases monomials with
  | nil =>
      rw [ofForm, LinearForm.text]
      simp [text, Term.text_ofNumber, Numeral.ofInt, Numeral.ofNat]
  | cons first rest =>
      have following : rest.flatMap (fun term => (Term.ofMonomial true term).text) =
          rest.flatMap fun term => (LinearForm.followingText term).toList := by
        rw [List.flatMap_def, List.flatMap_def]
        refine congrArg List.flatten (List.map_congr_left fun term member => ?_)
        exact Term.text_ofMonomial_following (nonzero term (.tail _ member))
      rw [ofForm, LinearForm.text, text_cons, Term.text_ofMonomial,
        String.toList_append, String.toList_join, text, List.flatMap_map,
        List.flatMap_map]
      exact congrArg _ following

theorem proper_ofForm
    {scope : List Variable}
    (properScope : ProperScope scope)
    {form : LinearForm}
    (wellFormed : form.WellFormed scope) :
    (ofForm form).Proper := by
  obtain ⟨monomials⟩ := form
  have identifiers : ∀ term ∈ monomials,
      isIdentifier term.var.name.toList = true := fun term member =>
    properScope.identifiers term.var (wellFormed.declared term member)
  cases monomials with
  | nil => exact proper_ofNumber 0
  | cons first rest =>
      obtain ⟨firstIdentifier, restIdentifiers⟩ :=
        List.forall_mem_cons.mp identifiers
      refine ⟨List.cons_ne_nil _ _, List.forall_mem_cons.mpr
        ⟨Term.proper_ofMonomial firstIdentifier false, ?_⟩, ?_⟩
      · exact List.forall_mem_map.mpr fun term member =>
          Term.proper_ofMonomial (restIdentifiers term member) true
      · refine List.forall_mem_map.mpr fun term member => ?_
        unfold Term.ofMonomial
        dsimp only
        split <;> simp

theorem denotes_ofForm
    {scope : List Variable}
    (properScope : ProperScope scope)
    {form : LinearForm}
    (wellFormed : form.WellFormed scope) :
    (ofForm form).Denotes scope { monomials := form.monomials } := by
  obtain ⟨monomials⟩ := form
  have denotes : ∀ term ∈ monomials, ∀ follows,
      (Term.ofMonomial follows term).Denotes scope (.monomial term) := by
    intro term member follows
    refine Term.denotes_ofMonomial properScope (wellFormed.declared term member)
      ?_ (wellFormed.nonzero term member) follows
    refine Word.fits_natAbs_iff.mpr ⟨wellFormed.fits term member, fun least => ?_⟩
    have opposite := (wellFormed.representable term member).1
    rw [least] at opposite
    exact absurd opposite (by decide)
  cases monomials with
  | nil =>
      refine ⟨[.constant 0], .cons (Term.denotes_ofNumber (by decide)) .nil, ?_,
        rfl⟩
      exact OrderEncoding.Side.constantsFit_constant_cons_iff.mpr
        ⟨by decide, OrderEncoding.Side.constantsFit_nil_iff.mpr (by decide)⟩
  | cons first rest =>
      refine ⟨(first :: rest).map .monomial, ?_,
        OrderEncoding.Side.constantsFit_monomials (by decide) _,
        (OrderEncoding.Side.ofTerms_monomials 0 _).symm⟩
      refine .cons (denotes first (.head _) false) ?_
      rw [List.forall₂_map_left_iff, List.forall₂_map_right_iff,
        List.forall₂_same]
      exact fun term member => denotes term (.tail _ member) true

end Side

namespace Literal

/-- The literal that is written for an inequality. -/
def ofInequality (inequality : Inequality) : Literal :=
  { negations := if inequality.positive then 0 else 1
    left := .ofForm inequality.form
    relation := .le
    right := [.ofNumber inequality.bound] }

theorem text_ofInequality
    {inequality : Inequality}
    (nonzero : inequality.form.Nonzero) :
    (ofInequality inequality).text = inequality.text.toList := by
  have core : (ofInequality inequality).core = inequality.form.text.toList ++
      ("<=".toList ++ (Numeral.ofInt inequality.bound).toList) := by
    rw [Literal.core, ofInequality]
    dsimp only
    rw [Side.text_ofForm nonzero, Side.text_ofNumber]
    rfl
  rw [text, core, Inequality.text, comparisonText, ofInequality]
  cases inequality.positive with
  | true => simp [wrap]
  | false => simp [wrap]

theorem proper_ofInequality
    {scope : List Variable}
    (properScope : ProperScope scope)
    {inequality : Inequality}
    (wellFormed : inequality.WellFormed scope) :
    (ofInequality inequality).Proper :=
  ⟨Side.proper_ofForm properScope wellFormed.form, Side.proper_ofNumber _⟩

end Literal
end Written

/-- The number that is printed for a machine integer is read back, unless it is
the least one. -/
theorem Side.read_ofNumber
    {scope : List Variable}
    {number : Int}
    (fits : Word.Fits number)
    {side : Side} :
    Side.read scope (Written.Side.text [.ofNumber number]) = .ok side ↔
      number ≠ Word.least ∧ side = { constant := number } := by
  rw [(Written.Side.proper_ofNumber number).read_text_eq_ok_iff]
  constructor
  · rintro ⟨terms, denoted, _, rfl⟩
    obtain ⟨term, others, termDenotes, othersDenoted, rfl⟩ :=
      List.forall₂_cons_left_iff.mp denoted
    obtain rfl := List.forall₂_nil_left_iff.mp othersDenoted
    cases termDenotes with
    | constant _ sizeFits =>
        rw [Written.Term.size_ofNumber] at sizeFits
        rw [Written.Term.coefficient_ofNumber]
        refine ⟨(Word.fits_natAbs_iff.mp sizeFits).2, ?_⟩
        simp [ofTerms, List.filterMap_cons, SideTerm.constant?,
          SideTerm.monomial?]
    | monomial _ named => exact absurd rfl named
  · rintro ⟨aboveLeast, rfl⟩
    have sizeFits := Word.fits_natAbs_iff.mpr ⟨fits, aboveLeast⟩
    refine ⟨[.constant number],
      .cons (Written.Term.denotes_ofNumber sizeFits) .nil, ?_, ?_⟩
    · rw [constantsFit_constant_cons_iff, constantsFit_nil_iff, Int.zero_add]
      exact ⟨by decide, fits⟩
    · simp [ofTerms, List.filterMap_cons, SideTerm.constant?,
        SideTerm.monomial?]

/-- The side that is printed for a form is read back. -/
theorem Side.read_ofForm
    {scope : List Variable}
    (properScope : ProperScope scope)
    {form : LinearForm}
    (wellFormed : form.WellFormed scope) :
    Side.read scope (Written.Side.ofForm form).text =
      .ok { monomials := form.monomials } :=
  (Written.Side.proper_ofForm properScope wellFormed).read_text_eq_ok_iff.mpr
    (Written.Side.denotes_ofForm properScope wellFormed)

/-- The sides that are printed for an inequality are read back, unless its bound
is the least machine integer. -/
theorem Comparison.read_ofInequality
    {scope : List Variable}
    (properScope : ProperScope scope)
    {inequality : Inequality}
    (wellFormed : inequality.WellFormed scope)
    {comparison : Comparison} :
    Comparison.read scope (Written.Literal.ofInequality inequality).core =
        .ok comparison ↔
      inequality.bound ≠ Word.least ∧ comparison =
        { form := inequality.form
          relation := .le
          constant := inequality.bound } := by
  have proper := Written.Literal.proper_ofInequality properScope wellFormed
  have splits := split?_core proper
  have leftReads : Side.read scope
      (Written.Literal.ofInequality inequality).left.text = .ok _ :=
    Side.read_ofForm properScope wellFormed.form
  have rightReads : ∀ {side}, Side.read scope
      (Written.Literal.ofInequality inequality).right.text = .ok side ↔ _ :=
    Side.read_ofNumber wellFormed.bound_fits
  have gathers : LinearForm.ofMonomials inequality.form.monomials =
      .ok inequality.form := wellFormed.form.ofMonomials_monomials
  rw [read_eq_ok_iff]
  constructor
  · rintro ⟨_, split, splitEq, _, left, right, leftRead, rightRead, formEq,
      relationEq, constantEq, _⟩
    obtain rfl := Option.some.inj (splits.symm.trans splitEq)
    obtain rfl := Except.ok.inj (leftReads.symm.trans leftRead)
    obtain ⟨aboveLeast, rfl⟩ := rightReads.mp rightRead
    refine ⟨aboveLeast, ?_⟩
    rw [List.map_nil, List.append_nil, gathers, Except.ok.injEq] at formEq
    obtain ⟨form, relation, constant⟩ := comparison
    dsimp only at formEq relationEq constantEq
    rw [← formEq, ← relationEq, ← constantEq, Int.sub_zero]
    rfl
  · rintro ⟨aboveLeast, rfl⟩
    refine ⟨proper.blankFree_core.not_mem_lineFeed, _, splits,
      proper.right.any_isRelationSign, _, _, leftReads,
      rightReads.mpr ⟨aboveLeast, rfl⟩, ?_, rfl, Int.sub_zero _,
      wellFormed.bound_fits⟩
    rw [List.map_nil, List.append_nil]
    exact gathers

/-- An inequality is read back from its text, unless its bound is the least
machine integer; then nothing is read. -/
theorem DisjunctiveForm.read_inequality_text
    {scope : List Variable}
    (properScope : ProperScope scope)
    {inequality : Inequality}
    (wellFormed : inequality.WellFormed scope)
    {form : DisjunctiveForm} :
    DisjunctiveForm.read scope inequality.text.toList = .ok form ↔
      inequality.bound ≠ Word.least ∧ form = [[inequality]] := by
  have proper := Written.Literal.proper_ofInequality properScope wellFormed
  have text := Written.Literal.text_ofInequality wellFormed.form.nonzero
  rw [read_eq_ok_iff, ← text, proper.blankFree.trim_eq, Written.Literal.text,
    WrappedLiteral.unwrap_wrap proper.blankFree_core proper.no_parenthesis]
  simp only [Comparison.read_ofInequality properScope wellFormed]
  obtain ⟨linear, bound, positive⟩ := inequality
  have bare : Comparison.toDisjunctive?
      { form := linear, relation := .le, constant := bound } =
        some [[{ form := linear, bound }]] := rfl
  constructor
  · rintro ⟨comparison, _, ⟨aboveLeast, rfl⟩, isForm, rfl⟩
    obtain rfl := Option.some.inj (bare.symm.trans isForm)
    refine ⟨aboveLeast, ?_⟩
    cases positive with
    | true => rfl
    | false => rfl
  · rintro ⟨aboveLeast, rfl⟩
    refine ⟨_, _, ⟨aboveLeast, rfl⟩, bare, ?_⟩
    cases positive with
    | true => rfl
    | false => rfl

end OrderEncoding
