import OrderEncoding.Proofs.Problem.Comparisons

/-!
# Reading literals

A literal that is read is a comparison within some number of negations, and its
disjunctive form holds when the literal does.
-/

namespace OrderEncoding

namespace Written

theorem blankFree_wrap
    {core : List Char}
    (free : Text.BlankFree core)
    (negations : Nat) :
    Text.BlankFree (wrap negations core) := by
  induction negations with
  | zero => exact free
  | succ negations inductionHypothesis =>
      have opening : Text.BlankFree ['-', '('] := by decide
      have closing : Text.BlankFree [')'] := by decide
      exact opening.append (inductionHypothesis.append closing)

theorem mem_wrap
    {core : List Char}
    {character : Char}
    (member : character ∈ core)
    (negations : Nat) :
    character ∈ wrap negations core := by
  induction negations with
  | zero => exact member
  | succ negations inductionHypothesis => simp [wrap, inductionHypothesis]

/-- The characters within negations are their own and those of the comparison. -/
theorem mem_wrap_cases
    {core : List Char}
    {negations : Nat}
    {character : Char}
    (member : character ∈ wrap negations core) :
    character ∈ core ∨ character = '-' ∨ character = '(' ∨ character = ')' := by
  induction negations with
  | zero => exact .inl member
  | succ negations inductionHypothesis =>
      rw [wrap, List.mem_cons, List.mem_cons, List.mem_append,
        List.mem_singleton] at member
      rcases member with minus | opening | inner | closing
      · exact .inr (.inl minus)
      · exact .inr (.inr (.inl opening))
      · exact inductionHypothesis inner
      · exact .inr (.inr (.inr closing))

/-- A character of a comparison. -/
def isComparisonCharacter (character : Char) : Bool :=
  Text.isSideCharacter character || Comparison.isRelationSign character

/-- A character of a literal. -/
def isLiteralCharacter (character : Char) : Bool :=
  isComparisonCharacter character || character == '(' || character == ')'

theorem Literal.Proper.all_core
    {literal : Literal}
    (proper : literal.Proper) :
    ∀ character ∈ literal.core, isComparisonCharacter character = true := by
  intro character member
  rw [isComparisonCharacter]
  rcases List.mem_append.mp member with inLeft | member
  · rw [proper.left.all_text character inLeft, Bool.true_or]
  rcases List.mem_append.mp member with inRelation | inRight
  · have ofRelation :
        literal.relation.text.toList.all Comparison.isRelationSign = true := by
      cases literal.relation <;> decide
    rw [List.all_eq_true.mp ofRelation character inRelation, Bool.or_true]
  · rw [proper.right.all_text character inRight, Bool.true_or]

theorem Literal.Proper.all_text
    {literal : Literal}
    (proper : literal.Proper) :
    ∀ character ∈ literal.text, isLiteralCharacter character = true := by
  intro character member
  rcases mem_wrap_cases member with inCore | rfl | rfl | rfl
  · rw [isLiteralCharacter, proper.all_core character inCore, Bool.true_or,
      Bool.true_or]
  · decide
  · decide
  · decide

theorem isBlank_eq_false_of_isLiteralCharacter
    {character : Char}
    (ofLiteral : isLiteralCharacter character = true) :
    Text.isBlank character = false := by
  simp only [isLiteralCharacter, isComparisonCharacter,
    Comparison.isRelationSign, Bool.or_eq_true, beq_iff_eq] at ofLiteral
  rcases ofLiteral with ((ofSide | ((rfl | rfl) | rfl) | rfl) | rfl) | rfl
  · exact Text.isBlank_eq_false_of_isSideCharacter ofSide
  all_goals decide

theorem Literal.Proper.blankFree
    {literal : Literal}
    (proper : literal.Proper) :
    Text.BlankFree literal.text :=
  fun character member =>
    isBlank_eq_false_of_isLiteralCharacter (proper.all_text character member)

theorem Literal.Proper.blankFree_core
    {literal : Literal}
    (proper : literal.Proper) :
    Text.BlankFree literal.core :=
  fun character member => proper.blankFree character (mem_wrap member _)

theorem Literal.text_ne_nil (literal : Literal) : literal.text ≠ [] := by
  obtain ⟨sign, ofRelation⟩ :
      ∃ sign, sign ∈ literal.relation.text.toList := by
    cases literal.relation <;> exact ⟨_, List.mem_cons_self⟩
  have inCore : sign ∈ literal.core :=
    List.mem_append_right _ (List.mem_append_left _ ofRelation)
  exact List.ne_nil_of_mem (mem_wrap inCore literal.negations)

/-- No parenthesis belongs to a comparison. -/
theorem Literal.Proper.no_parenthesis
    {literal : Literal}
    (proper : literal.Proper) :
    ∀ character ∈ literal.core, character ≠ '(' ∧ character ≠ ')' :=
  fun character member =>
    ⟨Text.ne_of_class (proper.all_core character member) (by decide),
      Text.ne_of_class (proper.all_core character member) (by decide)⟩

end Written

namespace WrappedLiteral

open Written (wrap)

theorem eq_of_stripNegation?
    {literal inner : List Char}
    (stripped : stripNegation? literal = some inner) :
    literal = '-' :: '(' :: (inner ++ [')']) := by
  unfold stripNegation? at stripped
  split at stripped
  · rename_i rest
    split at stripped
    · rename_i closed
      obtain rfl := Option.some.inj stripped
      obtain ⟨last, _⟩ := closed
      obtain ⟨front, rfl⟩ := List.getLast?_eq_some_iff.mp last
      rw [List.dropLast_concat]
    · contradiction
  · contradiction

/-- A text without parentheses does not change the balance. -/
theorem balanced_append
    {text : List Char}
    (none : ∀ character ∈ text, character ≠ '(' ∧ character ≠ ')')
    (depth : Nat)
    (rest : List Char) :
    balanced depth (text ++ rest) = balanced depth rest := by
  induction text with
  | nil => rfl
  | cons first others inductionHypothesis =>
      obtain ⟨notOpening, notClosing⟩ := none first (.head _)
      have others := inductionHypothesis fun character member =>
        none character (.tail _ member)
      rw [List.cons_append, ← others]
      cases depth <;> rw [balanced] <;> simp_all

/-- Negations around a text without parentheses do not change the balance. -/
theorem balanced_wrap_append
    {core : List Char}
    (none : ∀ character ∈ core, character ≠ '(' ∧ character ≠ ')')
    (negations depth : Nat)
    (rest : List Char) :
    balanced depth (wrap negations core ++ rest) = balanced depth rest := by
  induction negations generalizing depth rest with
  | zero => exact balanced_append none depth rest
  | succ negations inductionHypothesis =>
      have opened : balanced depth ('-' :: '(' ::
          (wrap negations core ++ ([')'] ++ rest))) =
          balanced (depth + 1) (wrap negations core ++ ([')'] ++ rest)) := by
        cases depth <;> rfl
      rw [wrap, List.cons_append, List.cons_append, List.append_assoc, opened,
        inductionHypothesis]
      rfl

theorem stripNegation?_wrap
    {core : List Char}
    (none : ∀ character ∈ core, character ≠ '(' ∧ character ≠ ')')
    (negations : Nat) :
    stripNegation? (wrap (negations + 1) core) = some (wrap negations core) := by
  have balancedInner : balanced 0 (wrap negations core) = true := by
    have balance := balanced_wrap_append none negations 0 []
    rwa [List.append_nil] at balance
  rw [wrap, stripNegation?]
  simp [balancedInner]

theorem unwrap_of_stripNegation?_eq_none
    {literal : List Char}
    (bare : stripNegation? literal = none)
    (positive : Bool) :
    unwrap positive literal = { positive, core := literal } := by
  rw [unwrap]
  split
  · simp_all
  · rfl

theorem unwrap_of_stripNegation?_eq_some
    {literal inner : List Char}
    (stripped : stripNegation? literal = some inner)
    (positive : Bool) :
    unwrap positive literal = unwrap (!positive) (Text.trim inner) := by
  rw [unwrap]
  split
  · simp_all
  · simp_all

/-- Taking all negations off a comparison within them leaves the comparison. -/
theorem unwrap_wrap
    {core : List Char}
    (free : Text.BlankFree core)
    (none : ∀ character ∈ core, character ≠ '(' ∧ character ≠ ')')
    (negations : Nat)
    (positive : Bool) :
    unwrap positive (wrap negations core) =
      { positive := xor positive (negations % 2 == 1), core } := by
  induction negations generalizing positive with
  | zero =>
      have bare : stripNegation? core = Option.none := by
        unfold stripNegation?
        split
        · exact absurd rfl (none '(' (.tail _ (.head _))).1
        · rfl
      rw [wrap, unwrap_of_stripNegation?_eq_none bare]
      simp
  | succ negations inductionHypothesis =>
      rw [unwrap_of_stripNegation?_eq_some (stripNegation?_wrap none negations),
        (Written.blankFree_wrap free negations).trim_eq, inductionHypothesis]
      have parity : (negations + 1) % 2 = 1 - negations % 2 := by omega
      rcases Nat.mod_two_eq_zero_or_one negations with even | odd
      · simp [parity, even]
      · simp [parity, odd]

/-- A text without blanks is what is left of it within some negations. -/
theorem exists_wrap_eq
    {literal : List Char}
    (free : Text.BlankFree literal)
    (positive : Bool) :
    ∃ negations, wrap negations (unwrap positive literal).core = literal := by
  cases stripped : stripNegation? literal with
  | none =>
      rw [unwrap_of_stripNegation?_eq_none stripped]
      exact ⟨0, rfl⟩
  | some inner =>
      have shorter := length_of_stripNegation? stripped
      have literalEq := eq_of_stripNegation? stripped
      have innerFree : Text.BlankFree inner := fun character member =>
        free character (by simp [literalEq, member])
      obtain ⟨negations, wrapped⟩ := exists_wrap_eq innerFree (!positive)
      rw [unwrap_of_stripNegation?_eq_some stripped, innerFree.trim_eq]
      exact ⟨negations + 1, by rw [wrap, wrapped, literalEq]⟩
termination_by literal.length

end WrappedLiteral

namespace DisjunctiveForm

/-- When the disjunctive form of a literal is read. -/
theorem read_eq_ok_iff
    {scope : List Variable}
    {text : List Char}
    {form : DisjunctiveForm} :
    read scope text = .ok form ↔
      ∃ comparison bare,
        Comparison.read scope
          (WrappedLiteral.unwrap true (Text.trim text)).core = .ok comparison ∧
        comparison.toDisjunctive? = some bare ∧
        form = if (WrappedLiteral.unwrap true (Text.trim text)).positive then bare
          else negated bare := by
  rw [read, WrappedLiteral.toDisjunctive, Results.bind_eq_ok_iff]
  apply exists_congr
  intro comparison
  cases comparison.toDisjunctive? with
  | none => simp
  | some bare =>
      simp only [Except.ok.injEq, Option.some.injEq, exists_and_left,
        exists_eq_left']
      exact and_congr_right fun _ => eq_comm

/-- The disjunctive form of a literal has nonempty conjunctions of well-formed
inequalities. -/
theorem nonemptyOf_of_read
    {scope : List Variable}
    {text : List Char}
    {form : DisjunctiveForm}
    (reads : read scope text = .ok form) :
    form ≠ [] ∧ NonemptyOf (Inequality.WellFormed scope) form := by
  obtain ⟨comparison, bare, comparisonReads, isForm, rfl⟩ :=
    read_eq_ok_iff.mp reads
  obtain ⟨wellFormed, fits, _⟩ := Comparison.sides_of_read comparisonReads
  obtain ⟨nonempty, parts⟩ :=
    Comparison.nonemptyOf_of_toDisjunctive? wellFormed fits isForm
  split
  · exact ⟨nonempty, parts⟩
  · exact parts.negated nonempty fun inequality proper => proper.negated

/-- The disjunctive form of a literal holds when the literal does. -/
theorem eval_of_read
    {scope : List Variable}
    {literal : Written.Literal}
    (proper : literal.Proper)
    {form : DisjunctiveForm}
    (reads : read scope literal.text = .ok form)
    (value : String → Int) :
    form.eval value = literal.eval value := by
  obtain ⟨comparison, bare, comparisonReads, isForm, rfl⟩ :=
    read_eq_ok_iff.mp reads
  rw [proper.blankFree.trim_eq, Written.Literal.text,
    WrappedLiteral.unwrap_wrap proper.blankFree_core proper.no_parenthesis]
    at comparisonReads ⊢
  obtain ⟨_, rfl⟩ := Comparison.toDisjunctive?_eq_some_iff.mp isForm
  have bareEval := (Comparison.eval_toDisjunctive value comparison).trans
    (Comparison.eval_of_read_core proper comparisonReads value)
  rw [Written.Literal.eval]
  cases literal.negations % 2 == 1 with
  | true => simp [bareEval]
  | false => simp [bareEval]

/-- A text without blanks that is read as a literal is the text of a proper
one. -/
theorem exists_written_of_read
    {scope : List Variable}
    {text : List Char}
    (free : Text.BlankFree text)
    {form : DisjunctiveForm}
    (reads : read scope text = .ok form) :
    ∃ literal : Written.Literal, literal.Proper ∧ literal.text = text := by
  obtain ⟨comparison, _, comparisonReads, _⟩ := read_eq_ok_iff.mp reads
  rw [free.trim_eq] at comparisonReads
  obtain ⟨negations, wrapped⟩ := WrappedLiteral.exists_wrap_eq free true
  have coreFree : Text.BlankFree (WrappedLiteral.unwrap true text).core :=
    fun character member =>
      free character (wrapped ▸ Written.mem_wrap member negations)
  obtain ⟨literal, proper, coreEq⟩ :=
    Comparison.exists_core_of_read coreFree comparisonReads
  refine ⟨{ literal with negations }, ⟨proper.left, proper.right⟩, ?_⟩
  exact (congrArg (Written.wrap negations) coreEq).trans wrapped

end DisjunctiveForm
end OrderEncoding
