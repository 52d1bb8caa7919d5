import OrderEncoding.Problem.NormalForm
import OrderEncoding.Proofs.Choices
import OrderEncoding.Proofs.Encoding.Thresholds
import OrderEncoding.Proofs.Repetitions

/-!
# Meanings of normal forms

Negation, conversion into a conjunctive form and disjunction of forms mean what
their names say.  They make up their results from the inequalities that they are
given, and leave no disjunction empty.
-/

namespace OrderEncoding

namespace DisjunctiveForm

@[simp] theorem eval_negated
    (value : String → Int)
    (form : DisjunctiveForm) :
    form.negated.eval value = !form.eval value := by
  simp only [eval, negated, List.any_map, Function.comp_def, all_eraseDups,
    List.all_map, Inequality.eval_negated]
  rw [any_all_choices fun inequality => !Inequality.eval value inequality]
  simp only [List.not_any_eq_all_not, List.not_all_eq_any_not]

@[simp] theorem eval_toConjunctive
    (value : String → Int)
    (form : DisjunctiveForm) :
    form.toConjunctive.eval value = form.eval value := by
  simp only [ConjunctiveForm.eval, toConjunctive, List.all_map,
    Function.comp_def, any_eraseDups, all_any_choices, eval]

end DisjunctiveForm

namespace ConjunctiveForm

/-- A sum of forms holds when one of them does; without any form it does not
hold. -/
theorem eval_disjoin
    (value : String → Int)
    (sum : Option ConjunctiveForm)
    (form : ConjunctiveForm) :
    (disjoin sum form).eval value =
      (sum.any (eval value) || form.eval value) := by
  cases sum with
  | none => rfl
  | some first =>
      simp only [eval, disjoin, List.all_flatMap, List.all_map,
        Function.comp_def, any_eraseDups, List.any_append, Option.any_some,
        ← List.or_all_distrib_left, ← List.or_all_distrib_right]

theorem any_foldl_disjoin
    (value : String → Int)
    (sum : Option ConjunctiveForm)
    (forms : List ConjunctiveForm) :
    (forms.foldl (fun sum form => some (disjoin sum form)) sum).any
        (eval value) =
      (sum.any (eval value) || forms.any (eval value)) := by
  induction forms generalizing sum with
  | nil => simp
  | cons form rest inductionHypothesis =>
      rw [List.foldl_cons, inductionHypothesis, Option.any_some, eval_disjoin,
        List.any_cons, Bool.or_assoc]

theorem foldl_disjoin_eq_none_iff
    {sum : Option ConjunctiveForm}
    {forms : List ConjunctiveForm} :
    forms.foldl (fun sum form => some (disjoin sum form)) sum = none ↔
      sum = none ∧ forms = [] := by
  induction forms generalizing sum with
  | nil => simp
  | cons form rest inductionHypothesis =>
      rw [List.foldl_cons, inductionHypothesis]
      simp

/-- The disjunction of some forms holds when one of them does. -/
theorem eval_disjoinAll
    (value : String → Int)
    {forms : List ConjunctiveForm}
    (nonempty : forms ≠ []) :
    (disjoinAll forms).eval value = forms.any (eval value) := by
  have means := any_foldl_disjoin value none forms
  rw [disjoinAll]
  cases folds : forms.foldl (fun sum form => some (disjoin sum form)) none with
  | none => exact absurd (foldl_disjoin_eq_none_iff.mp folds).2 nonempty
  | some result =>
      rw [folds, Option.any_none, Bool.false_or] at means
      exact means

/-- The operations on normal forms are Boolean connectives, whatever the inequalities
are and also where a form or a part of it is empty.  Negation turns the meaning of a
disjunctive form round, and a second one restores it; a conjunctive form made from a
disjunctive one keeps its meaning; and a disjunction of conjunctive forms holds when
one of them does.  Adding forms up from none gives their disjunction, which for no
form at all is still none, and so adding up the forms of literals gives the
disjunction of the literals. -/
theorem operations_mean_connectives (value : String → Int) :
    (∀ form : DisjunctiveForm,
      form.negated.eval value = !form.eval value ∧
      form.negated.negated.eval value = form.eval value ∧
      form.toConjunctive.eval value = form.eval value) ∧
    (∀ first second : ConjunctiveForm,
      (disjoin (some first) second).eval value =
        (first.eval value || second.eval value) ∧
      disjoin none second = second) ∧
    (∀ forms : List ConjunctiveForm,
      let sum := forms.foldl (fun sum form => some (disjoin sum form)) none
      (sum = none ↔ forms = []) ∧
      sum.any (eval value) = forms.any (eval value)) ∧
    ∀ literals : List DisjunctiveForm,
      let sum := (literals.map DisjunctiveForm.toConjunctive).foldl
        (fun sum form => some (disjoin sum form)) none
      sum.any (eval value) = literals.any (DisjunctiveForm.eval value) := by
  have sums : ∀ forms : List ConjunctiveForm,
      (forms.foldl (fun sum form => some (disjoin sum form)) none).any
        (eval value) = forms.any (eval value) := by
    intro forms
    rw [any_foldl_disjoin, Option.any_none, Bool.false_or]
  refine ⟨fun form => ⟨?_, ?_, ?_⟩, fun first second => ⟨?_, rfl⟩,
    fun forms => ⟨?_, sums forms⟩, fun literals => ?_⟩
  · exact form.eval_negated value
  · rw [DisjunctiveForm.eval_negated, DisjunctiveForm.eval_negated, Bool.not_not]
  · exact form.eval_toConjunctive value
  · rw [eval_disjoin, Option.any_some]
  · rw [foldl_disjoin_eq_none_iff]
    exact and_iff_right rfl
  · dsimp only
    rw [sums, List.any_map]
    exact congrArg literals.any
      (funext fun literal => literal.eval_toConjunctive value)

end ConjunctiveForm

/-- Nonempty lists of elements with a property. -/
def NonemptyOf (property : Inequality → Prop) (form : List (List Inequality)) :
    Prop :=
  ∀ part ∈ form, part ≠ [] ∧ ∀ inequality ∈ part, property inequality

variable {property : Inequality → Prop}

/-- A choice from nonempty lists with a property, of which there is at least
one, is such a list again. -/
theorem NonemptyOf.choice
    {form : List (List Inequality)}
    (nonempty : form ≠ [])
    (parts : NonemptyOf property form)
    {pick : List Inequality}
    (picked : pick ∈ choices form) :
    pick ≠ [] ∧ ∀ inequality ∈ pick, property inequality := by
  have members := mem_choices.mp picked
  constructor
  · rintro rfl
    exact nonempty (List.forall₂_nil_left_iff.mp members)
  · intro inequality member
    obtain ⟨position, inRange, rfl⟩ := List.mem_iff_getElem.mp member
    have inForm : position < form.length := members.length_eq ▸ inRange
    exact (parts _ (List.getElem_mem inForm)).2 _ (members.get inRange inForm)

/-- Choices exist from nonempty lists. -/
theorem NonemptyOf.choices_ne_nil
    {form : List (List Inequality)}
    (parts : NonemptyOf property form) :
    choices form ≠ [] := by
  induction form with
  | nil => simp
  | cons part rest inductionHypothesis =>
      obtain ⟨element, member⟩ :=
        List.exists_mem_of_ne_nil _ (parts part (.head _)).1
      obtain ⟨others, othersMem⟩ := List.exists_mem_of_ne_nil _
        (inductionHypothesis fun other otherMem => parts other (.tail _ otherMem))
      exact List.ne_nil_of_mem
        (mem_choices.mpr (.cons member (mem_choices.mp othersMem)))

theorem NonemptyOf.negated
    {form : DisjunctiveForm}
    (nonempty : form ≠ [])
    (parts : NonemptyOf property form)
    (symmetric : ∀ inequality, property inequality → property inequality.negated) :
    form.negated ≠ [] ∧ NonemptyOf property form.negated := by
  constructor
  · simpa [DisjunctiveForm.negated] using parts.choices_ne_nil
  · intro part member
    obtain ⟨pick, picked, rfl⟩ := List.mem_map.mp member
    obtain ⟨pickNonempty, pickHas⟩ := parts.choice nonempty picked
    refine ⟨eraseDups_ne_nil (by simpa using pickNonempty), ?_⟩
    intro inequality inPart
    rw [List.mem_eraseDups, List.mem_map] at inPart
    obtain ⟨original, originalMem, rfl⟩ := inPart
    exact symmetric original (pickHas original originalMem)

/-- A conjunctive form of nonempty disjunctions without repetitions, whose
inequalities have a property. -/
def ClausesOf (property : Inequality → Prop) (form : ConjunctiveForm) : Prop :=
  NonemptyOf property form ∧ ∀ disjunction ∈ form, disjunction.Nodup

theorem NonemptyOf.toConjunctive
    {form : DisjunctiveForm}
    (nonempty : form ≠ [])
    (parts : NonemptyOf property form) :
    ClausesOf property form.toConjunctive := by
  constructor
  · intro part member
    obtain ⟨pick, picked, rfl⟩ := List.mem_map.mp member
    obtain ⟨pickNonempty, pickHas⟩ := parts.choice nonempty picked
    exact ⟨eraseDups_ne_nil pickNonempty,
      fun inequality inPart => pickHas inequality (List.mem_eraseDups.mp inPart)⟩
  · intro disjunction member
    obtain ⟨pick, _, rfl⟩ := List.mem_map.mp member
    exact nodup_eraseDups pick

theorem ClausesOf.disjoin
    {first second : ConjunctiveForm}
    (firstClauses : ClausesOf property first)
    (secondClauses : ClausesOf property second) :
    ClausesOf property (ConjunctiveForm.disjoin (some first) second) := by
  have shape : ∀ disjunction ∈ ConjunctiveForm.disjoin (some first) second,
      ∃ left ∈ first, ∃ right ∈ second, (left ++ right).eraseDups = disjunction := by
    simp [ConjunctiveForm.disjoin, List.mem_flatMap, List.mem_map]
  constructor
  · intro part member
    obtain ⟨left, leftMem, right, rightMem, rfl⟩ := shape part member
    obtain ⟨leftNonempty, leftHas⟩ := firstClauses.1 left leftMem
    obtain ⟨_, rightHas⟩ := secondClauses.1 right rightMem
    refine ⟨eraseDups_ne_nil (by simp [leftNonempty]), ?_⟩
    intro inequality inPart
    rw [List.mem_eraseDups, List.mem_append] at inPart
    exact inPart.elim (leftHas inequality) (rightHas inequality)
  · intro disjunction member
    obtain ⟨left, _, right, _, rfl⟩ := shape disjunction member
    exact nodup_eraseDups _

theorem ClausesOf.disjoinAll
    {forms : List ConjunctiveForm}
    (allClauses : ∀ form ∈ forms, ClausesOf property form) :
    ClausesOf property (ConjunctiveForm.disjoinAll forms) := by
  have folds : ∀ sum : Option ConjunctiveForm,
      (∀ form ∈ sum, ClausesOf property form) →
      ∀ form ∈ forms.foldl
        (fun sum form => some (ConjunctiveForm.disjoin sum form)) sum,
        ClausesOf property form := by
    induction forms with
    | nil => exact fun sum sumClauses => sumClauses
    | cons first rest inductionHypothesis =>
        intro sum sumClauses
        refine inductionHypothesis
          (fun form member => allClauses form (.tail _ member)) _ ?_
        intro form isSum
        obtain rfl := Option.some.inj isSum
        cases sum with
        | none => exact allClauses first (.head _)
        | some before =>
            exact (sumClauses before rfl).disjoin (allClauses first (.head _))
  rw [ConjunctiveForm.disjoinAll]
  cases result : forms.foldl
      (fun sum form => some (ConjunctiveForm.disjoin sum form)) none with
  | none => exact ⟨by simp [NonemptyOf], by simp⟩
  | some form => exact folds none (by simp) form result

end OrderEncoding
