import OrderEncoding.Proofs.Problem.Sides

/-!
# The grammar of sides

A text is read as a side when, without its blanks, it is the text of a proper
written side that is readable: its numbers are machine integers, its names are
declared and have coefficients other than zero, and its constants can be added up
from the left.  No text is the text of two proper sides, so a text that is read has
one written side, whose monomials, constant and value the result has.
-/

namespace OrderEncoding
namespace Written

/-! ## One written side for a text -/

theorem Sign.character_injective : Function.Injective Sign.character := by
  intro one other
  cases one <;> cases other <;> decide

theorem Term.sign_eq_of_mark_eq
    {one other : Term}
    (same : one.mark = other.mark) :
    one.sign = other.sign := by
  apply Option.map_injective Sign.character_injective
  simpa [mark] using congrArg List.head? same

theorem Term.star_eq_of_factor_eq
    {one other : Term}
    (sameName : one.name = other.name)
    (same : one.factor = other.factor) :
    one.star = other.star := by
  have isEmpty : ∀ star : Bool, (if star then ['*'] else []).isEmpty = !star := by
    decide
  rw [factor, factor, sameName] at same
  simpa [isEmpty] using congrArg List.isEmpty (List.append_cancel_right same)

/-- A proper term is known from its text. -/
theorem Term.Proper.eq_of_text_eq
    {one other : Term}
    (oneProper : one.Proper)
    (otherProper : other.Proper)
    (same : one.text = other.text) :
    one = other := by
  have parts : one.parts = other.parts := by
    rw [← Option.some.injEq,
      ← OrderEncoding.Side.parts?_text oneProper.complete oneProper.decimal, same]
    exact OrderEncoding.Side.parts?_text otherProper.complete otherProper.decimal
  have splits : (decide (one.sign = some .minus), one.body) =
      (decide (other.sign = some .minus), other.body) := by
    rw [← OrderEncoding.Side.splitSign_text
        (oneProper.complete.isSign_head oneProper.decimal), same]
    exact OrderEncoding.Side.splitSign_text
      (otherProper.complete.isSign_head otherProper.decimal)
  have digits : one.digits = other.digits := congrArg Side.Parts.digits parts
  have name : one.name = other.name := congrArg Side.Parts.name parts
  have body : one.body = other.body := (Prod.mk.inj splits).2
  have sign : one.sign = other.sign := by
    rw [text, text, body] at same
    exact sign_eq_of_mark_eq (List.append_cancel_right same)
  have star : one.star = other.star := by
    rw [Term.body, Term.body, digits] at body
    exact star_eq_of_factor_eq name (List.append_cancel_left body)
  cases one
  cases other
  exact (Term.mk.injEq ..).mpr ⟨sign, digits, star, name⟩

/-- A proper side is known from its text, because the text is cut into the texts of
its terms. -/
theorem Side.Proper.eq_of_text_eq
    {one other : Side}
    (oneProper : one.Proper)
    (otherProper : other.Proper)
    (same : one.text = other.text) :
    one = other := by
  have chunks := OrderEncoding.Side.chunks_text oneProper.terms oneProper.signed
  rw [same, OrderEncoding.Side.chunks_text otherProper.terms otherProper.signed]
    at chunks
  exact eq_of_map_eq_map (fun first firstMem second secondMem =>
    (oneProper.terms first firstMem).eq_of_text_eq
      (otherProper.terms second secondMem)) chunks.symm

/-! ## What can be read of a written side -/

/-- A term that is read over the given variables has a machine integer as its number,
and if it has a name, then a declared one, with a coefficient other than zero. -/
structure Term.Readable (scope : List Variable) (term : Term) : Prop where
  size : Word.Fits term.size
  coefficient : term.name ≠ [] → term.coefficient ≠ 0
  name : term.name ≠ [] → ∃ x ∈ scope, x.name = String.ofList term.name

theorem Term.exists_denotes_iff
    {scope : List Variable}
    {term : Term} :
    (∃ result, term.Denotes scope result) ↔ term.Readable scope := by
  constructor
  · rintro ⟨result, denotes⟩
    cases denotes with
    | constant noName fits =>
        exact ⟨fits, fun named => absurd noName named,
          fun named => absurd noName named⟩
    | monomial var named fits nonzero found =>
        refine ⟨fits, fun _ => nonzero, fun _ => ⟨var, ?_, ?_⟩⟩
        · exact List.mem_of_find?_eq_some found
        · simpa using List.find?_some found
  · rintro ⟨fits, nonzero, declared⟩
    by_cases noName : term.name = []
    · exact ⟨_, .constant noName fits⟩
    · obtain ⟨x, inScope, sameName⟩ := declared noName
      have isSome : (scope.find? (·.name = String.ofList term.name)).isSome := by
        rw [List.find?_isSome]
        exact ⟨x, inScope, by simpa using sameName⟩
      obtain ⟨var, found⟩ := Option.isSome_iff_exists.mp isSome
      exact ⟨_, .monomial var noName fits (nonzero noName) found⟩

namespace Side

/-- The signed numbers of the terms that are constants. -/
def constants (side : Side) : List Int :=
  (side.filter (·.name.isEmpty)).map Term.coefficient

/-- The terms that have a name. -/
def named (side : Side) : Side :=
  side.filter (!·.name.isEmpty)

/-- A side that is read over the given variables has terms that are, and every
partial sum of its constants is a machine integer. -/
structure Readable (scope : List Variable) (side : Side) : Prop where
  terms : ∀ term ∈ side, term.Readable scope
  constants : ∀ count, Word.Fits (total (side.constants.take count))

/-- The monomials of a result are those that the named terms of a side are written
for, in the same order: each has the first variable of that name, and the signed
number of the term. -/
def WrittenFor
    (scope : List Variable)
    (side : Side)
    (monomials : List Monomial) : Prop :=
  List.Forall₂ (fun term monomial =>
    scope.find? (·.name = String.ofList term.name) = some monomial.var ∧
      monomial.coefficient = term.coefficient) side.named monomials

end Side

/-- The constants among the terms that a side denotes are the constants of the
side. -/
theorem filterMap_constant?_eq
    {scope : List Variable}
    {side : Side}
    {terms : List SideTerm}
    (denoted : List.Forall₂ (Term.Denotes scope) side terms) :
    terms.filterMap SideTerm.constant? = side.constants := by
  induction denoted with
  | nil => rfl
  | cons first _ inductionHypothesis =>
      cases first with
      | constant noName _ =>
          simpa [Side.constants, List.filterMap_cons, SideTerm.constant?, noName]
            using inductionHypothesis
      | monomial _ named =>
          simpa [Side.constants, List.filterMap_cons, SideTerm.constant?, named]
            using inductionHypothesis

/-- The monomials among the terms that a side denotes are written for its named
terms. -/
theorem writtenFor_filterMap_monomial?
    {scope : List Variable}
    {side : Side}
    {terms : List SideTerm}
    (denoted : List.Forall₂ (Term.Denotes scope) side terms) :
    side.WrittenFor scope (terms.filterMap SideTerm.monomial?) := by
  induction denoted with
  | nil => exact .nil
  | cons first _ inductionHypothesis =>
      cases first with
      | constant noName _ =>
          simpa [Side.WrittenFor, Side.named, List.filterMap_cons,
            SideTerm.monomial?, noName] using inductionHypothesis
      | monomial var named _ _ found =>
          simpa [Side.WrittenFor, Side.named, List.filterMap_cons,
            SideTerm.monomial?, named, found] using inductionHypothesis

namespace Side

theorem constantsFit_iff
    {scope : List Variable}
    {side : Side}
    {terms : List SideTerm}
    (denoted : List.Forall₂ (Term.Denotes scope) side terms) :
    OrderEncoding.Side.ConstantsFit 0 terms ↔
      ∀ count, Word.Fits (total (side.constants.take count)) := by
  simp only [OrderEncoding.Side.ConstantsFit, Int.zero_add,
    filterMap_constant?_eq denoted]

/-- A side denotes something exactly when it is readable. -/
theorem exists_denotes_iff
    {scope : List Variable}
    {side : Side} :
    (∃ result, side.Denotes scope result) ↔ side.Readable scope := by
  constructor
  · rintro ⟨_, terms, denoted, fit, _⟩
    refine ⟨fun term member => ?_, (constantsFit_iff denoted).mp fit⟩
    obtain ⟨result, _, denotes⟩ := exists_related_of_mem_left denoted member
    exact Term.exists_denotes_iff.mp ⟨result, denotes⟩
  · intro readable
    obtain ⟨terms, denoted⟩ := exists_forall₂ fun term member =>
      Term.exists_denotes_iff.mpr (readable.terms term member)
    exact ⟨_, terms, denoted,
      (constantsFit_iff denoted).mpr readable.constants, rfl⟩

/-- What a side denotes has the monomials and the sum of the constants that are
written. -/
theorem Denotes.writtenFor
    {scope : List Variable}
    {side : Side}
    {result : OrderEncoding.Side}
    (denotes : side.Denotes scope result) :
    side.WrittenFor scope result.monomials ∧
      result.constant = total side.constants := by
  obtain ⟨terms, denoted, _, rfl⟩ := denotes
  refine ⟨writtenFor_filterMap_monomial? denoted, ?_⟩
  rw [OrderEncoding.Side.ofTerms, Int.zero_add, filterMap_constant?_eq denoted]

end Side
end Written

namespace Side

/-- A text is read as a side exactly when, without its blanks, it is a readable sum
of signed terms.  There is one such sum.  The monomials of the side that is read
are those of the sum in the order in which they are written, and the side has the
value of the sum whatever the values of the variables are. -/
theorem read_iff_readable
    (scope : List Variable)
    (text : List Char) :
    ((∃ side, read scope text = .ok side) ↔
      ∃ written : Written.Side, written.Proper ∧
        written.text = Text.removeBlanks text ∧ written.Readable scope) ∧
    ∀ side, read scope text = .ok side →
      ∃ written : Written.Side, written.Proper ∧
        written.text = Text.removeBlanks text ∧
        (∀ other : Written.Side, other.Proper →
          other.text = Text.removeBlanks text → other = written) ∧
        written.WrittenFor scope side.monomials ∧
        side.constant = total written.constants ∧
        ∀ value, side.eval value = written.eval value := by
  constructor
  · simp only [read_eq_ok_iff, ← Written.Side.exists_denotes_iff]
    constructor
    · rintro ⟨side, written, proper, sameText, denotes⟩
      exact ⟨written, proper, sameText, side, denotes⟩
    · rintro ⟨written, proper, sameText, side, denotes⟩
      exact ⟨side, written, proper, sameText, denotes⟩
  · intro side reads
    obtain ⟨written, proper, sameText, denotes⟩ := read_eq_ok_iff.mp reads
    obtain ⟨monomials, constant⟩ := denotes.writtenFor
    refine ⟨written, proper, sameText, ?_, monomials, constant, denotes.eval_eq⟩
    intro other otherProper otherText
    exact otherProper.eq_of_text_eq proper (otherText.trans sameText.symm)

/-- A side with a blank after its first sign, a star, a coefficient of minus one and
two constants. -/
theorem read_iff_readable_signed_terms :
    let x : Variable := { name := "x", lower := 0, upper := 2 }
    let y : Variable := { name := "y", lower := -1, upper := 3 }
    let side : Side := { monomials := [⟨x, 2⟩, ⟨y, -1⟩], constant := -2 }
    read [x, y] "+ 2*x-y -3+01".toList = .ok side ∧
      ∃ written : Written.Side, written.Proper ∧
        written.text = "+2*x-y-3+01".toList ∧
        written.WrittenFor [x, y] side.monomials ∧
        ∀ value, side.eval value = written.eval value := by
  intro x y side
  have reads : read [x, y] "+ 2*x-y -3+01".toList = .ok side := by rfl
  obtain ⟨written, proper, sameText, _, monomials, _, sameValue⟩ :=
    (read_iff_readable [x, y] "+ 2*x-y -3+01".toList).2 side reads
  have blankless : Text.removeBlanks "+ 2*x-y -3+01".toList =
      "+2*x-y-3+01".toList := by decide
  exact ⟨reads, written, proper, sameText.trans blankless, monomials, sameValue⟩

end Side
end OrderEncoding
