import OrderEncoding.Proofs.Problem.LinearForms
import OrderEncoding.Proofs.Problem.NormalForms
import OrderEncoding.Proofs.Problem.Sides
import OrderEncoding.Proofs.Text.Blanks

/-!
# Reading comparisons

A comparison that is read compares the values of its two sides as they are
written, and so does its disjunctive form.
-/

namespace OrderEncoding

namespace Written

theorem Side.Proper.all_text
    {side : Side}
    (proper : side.Proper) :
    ∀ character ∈ side.text, Text.isSideCharacter character = true := by
  intro character member
  obtain ⟨term, termMem, inTerm⟩ := List.mem_flatMap.mp member
  rcases List.mem_append.mp inTerm with inMark | inBody
  · obtain ⟨sign, _, rfl⟩ : ∃ sign, term.sign = some sign ∧
        sign.character = character := by
      simpa [Term.mark] using inMark
    cases sign <;> decide
  · have allBody := List.all_eq_true.mp (proper.terms term termMem).all_body
    rw [Text.isSideCharacter, allBody character inBody, Bool.true_or]

theorem Side.Proper.blankFree
    {side : Side}
    (proper : side.Proper) :
    Text.BlankFree side.text :=
  fun character member =>
    Text.isBlank_eq_false_of_isSideCharacter (proper.all_text character member)

/-- The text of a proper side is read as what the side denotes. -/
theorem Side.Proper.read_text_eq_ok_iff
    {scope : List Variable}
    {side : Side}
    (proper : side.Proper)
    {result : OrderEncoding.Side} :
    OrderEncoding.Side.read scope side.text = .ok result ↔
      side.Denotes scope result :=
  OrderEncoding.Side.read_text_eq_ok_iff proper
    proper.blankFree.removeBlanks_eq.symm

theorem Side.Proper.not_isRelationSign
    {side : Side}
    (proper : side.Proper) :
    ∀ character ∈ side.text, Comparison.isRelationSign character = false := by
  intro character member
  have apart : ∀ other, Text.isSideCharacter other = false → character ≠ other :=
    fun other => Text.ne_of_class (proper.all_text character member)
  simp only [Comparison.isRelationSign, Bool.or_eq_false_iff,
    beq_eq_false_iff_ne]
  exact ⟨⟨⟨apart '<' (by decide), apart '>' (by decide)⟩,
    apart '=' (by decide)⟩, apart '!' (by decide)⟩

theorem Side.Proper.any_isRelationSign
    {side : Side}
    (proper : side.Proper) :
    side.text.any Comparison.isRelationSign = false := by
  rw [List.any_eq_false]
  intro character member
  rw [proper.not_isRelationSign character member]
  exact Bool.false_ne_true

end Written

namespace Relation

/-- A relation between two integers does not change when they are moved
together. -/
theorem eval_add
    (relation : Relation)
    (left right offset : Int) :
    relation.eval (left + offset) (right + offset) =
      relation.eval left right := by
  cases relation <;> simp only [eval, decide_eq_decide] <;> omega

end Relation

namespace Comparison

/-- Cutting a text at a relation leaves the two sides. -/
theorem eq_of_split?
    {text : List Char}
    {split : SplitComparison}
    (splits : split? text = some split) :
    text = split.left ++ (split.relation.text.toList ++ split.right) := by
  fun_induction split? text generalizing split with
  | case1 => contradiction
  | case2 | case3 | case4 | case5 | case6 | case7 =>
      obtain rfl := Option.some.inj splits
      simp [Relation.text]
  | case8 first rest _ _ _ _ _ _ inductionHypothesis =>
      obtain ⟨inner, innerSplits, rfl⟩ := Option.map_eq_some_iff.mp splits
      rw [inductionHypothesis innerSplits]
      rfl

theorem isRelationSign_eq_false_iff
    {character : Char} :
    isRelationSign character = false ↔
      ((character ≠ '<' ∧ character ≠ '>') ∧ character ≠ '=') ∧
        character ≠ '!' := by
  simp only [isRelationSign, Bool.or_eq_false_iff, beq_eq_false_iff_ne]

/-- A text is cut at a relation whose sides have no relation signs. -/
theorem split?_text
    {left right : List Char}
    (leftFree : ∀ character ∈ left, isRelationSign character = false)
    (rightFree : ∀ character ∈ right, isRelationSign character = false)
    (relation : Relation) :
    split? (left ++ (relation.text.toList ++ right)) =
      some { left, relation, right } := by
  induction left with
  | nil =>
      have noEquals : ∀ rest, right ≠ '=' :: rest := by
        rintro rest rfl
        exact absurd (rightFree '=' (.head _)) (by decide)
      cases relation with
      | lt =>
          simp only [Relation.text, String.reduceToList, List.cons_append,
            List.nil_append]
          rw [split?]
          exact noEquals
      | gt =>
          simp only [Relation.text, String.reduceToList, List.cons_append,
            List.nil_append]
          rw [split?]
          exact noEquals
      | _ => simp [Relation.text, split?]
  | cons first rest inductionHypothesis =>
      have apart := isRelationSign_eq_false_iff.mp (leftFree first (.head _))
      have restSplits := inductionHypothesis fun character member =>
        leftFree character (.tail _ member)
      rw [List.cons_append, split?, restSplits]
      · rfl
      all_goals simp_all

/-- The comparison of a proper literal is cut into the two sides. -/
theorem split?_core
    {literal : Written.Literal}
    (proper : literal.Proper) :
    split? literal.core = some
      { left := literal.left.text
        relation := literal.relation
        right := literal.right.text } :=
  split?_text proper.left.not_isRelationSign proper.right.not_isRelationSign _

/-- When a comparison is read. -/
theorem read_eq_ok_iff
    {scope : List Variable}
    {literal : List Char}
    {comparison : Comparison} :
    read scope literal = .ok comparison ↔
      '\n' ∉ literal ∧ ∃ split, split? literal = some split ∧
        split.right.any isRelationSign = false ∧
        ∃ left right, Side.read scope split.left = .ok left ∧
          Side.read scope split.right = .ok right ∧
          LinearForm.ofMonomials
            (left.monomials ++ right.monomials.map Monomial.negated) =
              .ok comparison.form ∧
          split.relation = comparison.relation ∧
          right.constant - left.constant = comparison.constant ∧
          Word.Fits comparison.constant := by
  rw [read]
  constructor
  · intro reads
    by_cases lineFeed : '\n' ∈ literal
    · rw [if_pos lineFeed] at reads
      contradiction
    rw [if_neg lineFeed] at reads
    refine ⟨lineFeed, ?_⟩
    split at reads
    · rename_i split splits
      refine ⟨split, splits, ?_⟩
      split at reads
      · contradiction
      · rename_i oneRelation
        refine ⟨Bool.not_eq_true _ ▸ oneRelation, ?_⟩
        obtain ⟨left, leftReads, rest⟩ := Results.bind_eq_ok_iff.mp reads
        obtain ⟨right, rightReads, rest⟩ := Results.bind_eq_ok_iff.mp rest
        split at rest
        · contradiction
        · rename_i form gathers
          dsimp only at rest
          split at rest
          · rename_i fits
            obtain rfl := Except.ok.inj rest
            exact ⟨left, right, leftReads, rightReads, gathers, rfl, rfl, fits⟩
          · contradiction
    · contradiction
  · rintro ⟨noLineFeed, split, splits, oneRelation, left, right, leftReads,
      rightReads, gathers, relationEq, constantEq, fits⟩
    rw [if_neg noLineFeed, splits]
    dsimp only
    rw [if_neg (by simp [oneRelation]), leftReads, rightReads]
    obtain ⟨form, relation, constant⟩ := comparison
    dsimp only at gathers relationEq constantEq fits
    subst relationEq constantEq
    simp [bind, Except.bind, gathers, fits]

/-- A comparison that is read has a well-formed form and a machine integer as
its constant, and compares the values of the two sides of its text. -/
theorem sides_of_read
    {scope : List Variable}
    {text : List Char}
    {comparison : Comparison}
    (reads : read scope text = .ok comparison) :
    comparison.form.WellFormed scope ∧ Word.Fits comparison.constant ∧
      ∃ split left right, split? text = some split ∧
        Side.read scope split.left = .ok left ∧
        Side.read scope split.right = .ok right ∧
        ∀ value, comparison.eval value =
          split.relation.eval (left.eval value) (right.eval value) := by
  obtain ⟨_, split, splits, _, left, right, leftReads, rightReads, gathers,
    relationEq, constantEq, fits⟩ := read_eq_ok_iff.mp reads
  have declared : ∀ term ∈ left.monomials ++
      right.monomials.map Monomial.negated,
      term.var ∈ scope ∧ Word.Fits term.coefficient := by
    obtain ⟨_, _, _, leftDenotes⟩ := Side.read_eq_ok_iff.mp leftReads
    obtain ⟨_, _, _, rightDenotes⟩ := Side.read_eq_ok_iff.mp rightReads
    intro term member
    rcases List.mem_append.mp member with inLeft | inRight
    · obtain ⟨ofScope, coefficientFits, _⟩ := leftDenotes.declared term inLeft
      exact ⟨ofScope, coefficientFits⟩
    · obtain ⟨original, originalMem, rfl⟩ := List.mem_map.mp inRight
      obtain ⟨ofScope, _, oppositeFits⟩ :=
        rightDenotes.declared original originalMem
      exact ⟨ofScope, oppositeFits⟩
  obtain ⟨wellFormed, sameValue⟩ := LinearForm.wellFormed_of_ofMonomials
    (fun term member => (declared term member).1)
    (fun term member => (declared term member).2) gathers
  refine ⟨wellFormed, fits, split, left, right, splits, leftReads, rightReads,
    fun value => ?_⟩
  -- Both sides of the comparison are moved by the monomials of the right side
  -- and the constant of the left one.
  let moved := total (right.monomials.map (Monomial.eval value)) + left.constant
  have leftEval : left.eval value = comparison.form.eval value + moved := by
    have negatedTotal := total_map_neg (Monomial.eval value) right.monomials
    rw [sameValue, List.map_append, List.map_map, total_append]
    simp only [Function.comp_def, Monomial.eval_negated, negatedTotal,
      Side.eval, moved]
    omega
  have rightEval : right.eval value = comparison.constant + moved := by
    simp only [Side.eval, ← constantEq, moved]
    omega
  rw [leftEval, rightEval, Relation.eval_add, eval, relationEq]

/-- A comparison that is read compares the values of the sides that are
written. -/
theorem eval_of_read_core
    {scope : List Variable}
    {literal : Written.Literal}
    (proper : literal.Proper)
    {comparison : Comparison}
    (reads : read scope literal.core = .ok comparison)
    (value : String → Int) :
    comparison.eval value =
      literal.relation.eval (literal.left.eval value)
        (literal.right.eval value) := by
  obtain ⟨_, _, split, left, right, splits, leftReads, rightReads, sameValue⟩ :=
    sides_of_read reads
  rw [split?_core proper] at splits
  obtain rfl := Option.some.inj splits
  have leftDenotes := proper.left.read_text_eq_ok_iff.mp leftReads
  have rightDenotes := proper.right.read_text_eq_ok_iff.mp rightReads
  rw [sameValue, leftDenotes.eval_eq, rightDenotes.eval_eq]

/-- A text without blanks that is read as a comparison consists of two proper
sides and a relation. -/
theorem exists_core_of_read
    {scope : List Variable}
    {text : List Char}
    (free : Text.BlankFree text)
    {comparison : Comparison}
    (reads : read scope text = .ok comparison) :
    ∃ literal : Written.Literal, literal.Proper ∧ literal.core = text := by
  obtain ⟨_, _, split, left, right, splits, leftReads, rightReads, _⟩ :=
    sides_of_read reads
  obtain ⟨writtenLeft, leftProper, leftText, _⟩ := Side.read_eq_ok_iff.mp leftReads
  obtain ⟨writtenRight, rightProper, rightText, _⟩ :=
    Side.read_eq_ok_iff.mp rightReads
  have textEq := eq_of_split? splits
  have leftFree : Text.BlankFree split.left := fun character member =>
    free character (by simp [textEq, member])
  have rightFree : Text.BlankFree split.right := fun character member =>
    free character (by simp [textEq, member])
  rw [leftFree.removeBlanks_eq] at leftText
  rw [rightFree.removeBlanks_eq] at rightText
  let literal : Written.Literal :=
    { left := writtenLeft
      relation := split.relation
      right := writtenRight }
  refine ⟨literal, ⟨leftProper, rightProper⟩, ?_⟩
  rw [textEq, ← leftText, ← rightText, Written.Literal.core]

/-! ## Disjunctive forms of comparisons -/

@[simp] theorem eval_atMost
    (value : String → Int)
    (comparison : Comparison)
    (bound : Int) :
    (comparison.atMost bound).eval value =
      decide (comparison.form.eval value ≤ bound) :=
  beq_true _

/-- The disjunctive form of a comparison holds when the comparison does. -/
theorem eval_toDisjunctive
    (value : String → Int)
    (comparison : Comparison) :
    comparison.toDisjunctive.eval value = comparison.eval value := by
  unfold toDisjunctive eval Relation.eval DisjunctiveForm.eval
  rw [Bool.eq_iff_iff]
  cases comparison.relation <;>
    simp only [List.any_cons, List.any_nil, List.all_cons, List.all_nil,
      Inequality.eval_negated, eval_atMost, Bool.and_true, Bool.or_false,
      Bool.and_eq_true, Bool.or_eq_true, Bool.not_eq_true',
      decide_eq_true_eq, decide_eq_false_iff_not] <;>
    omega

/-- A comparison has its disjunctive form when the bounds in it are machine
integers. -/
theorem toDisjunctive?_eq_some_iff
    {comparison : Comparison}
    {form : DisjunctiveForm} :
    comparison.toDisjunctive? = some form ↔
      (comparison.relation = .le ∨ comparison.relation = .gt ∨
        Word.Fits (comparison.constant - 1)) ∧
      form = comparison.toDisjunctive := by
  unfold toDisjunctive?
  cases comparison.relation <;> simp [eq_comm]

/-- The disjunctive form of a comparison has nonempty conjunctions of
well-formed inequalities. -/
theorem nonemptyOf_of_toDisjunctive?
    {scope : List Variable}
    {comparison : Comparison}
    (wellFormed : comparison.form.WellFormed scope)
    (constantFits : Word.Fits comparison.constant)
    {form : DisjunctiveForm}
    (isForm : comparison.toDisjunctive? = some form) :
    form ≠ [] ∧ NonemptyOf (Inequality.WellFormed scope) form := by
  obtain ⟨boundFits, rfl⟩ := toDisjunctive?_eq_some_iff.mp isForm
  have le : Inequality.WellFormed scope
      (comparison.atMost comparison.constant) := ⟨wellFormed, constantFits⟩
  have lt : Word.Fits (comparison.constant - 1) → Inequality.WellFormed scope
      (comparison.atMost (comparison.constant - 1)) :=
    fun fits => ⟨wellFormed, fits⟩
  unfold toDisjunctive NonemptyOf
  cases relationEq : comparison.relation <;>
    simp_all [Inequality.WellFormed.negated]

end Comparison
end OrderEncoding
