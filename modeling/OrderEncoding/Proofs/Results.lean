import Mathlib.Data.List.Forall2
import OrderEncoding.Failure

/-!
# Results of actions

When an action that may fail gives a value.  A chain of actions gives one when
each of its steps does, and an action on every element of a list gives the list
of the elements' values.  Actions that read a text fail because it does not follow
its format.
-/

namespace OrderEncoding
namespace Results

variable {ε α β γ : Type}

theorem bind_eq_ok_iff
    {action : Except ε α}
    {next : α → Except ε β}
    {result : β} :
    (action >>= next) = .ok result ↔
      ∃ value, action = .ok value ∧ next value = .ok result := by
  cases action with
  | error failure => simp [bind, Except.bind]
  | ok value => simp [bind, Except.bind]

theorem map_eq_ok_iff
    {function : α → β}
    {action : Except ε α}
    {result : β} :
    action.map function = .ok result ↔
      ∃ value, action = .ok value ∧ function value = result := by
  cases action with
  | error failure => simp [Except.map]
  | ok value => simp [Except.map]

/-- An action that starts with a check gives a value when the check is passed. -/
theorem check_eq_ok_iff
    {refused : Prop}
    [Decidable refused]
    {failure : ε}
    {unreached : α → Except ε β}
    {next : Except ε β}
    {result : β} :
    (if refused then throw failure >>= unreached else next) = .ok result ↔
      ¬refused ∧ next = .ok result := by
  split
  next refusal =>
    simp [refusal, throw, throwThe, MonadExceptOf.throw, bind, Except.bind]
  next passed => simp [passed]

@[simp] theorem inContext_eq_ok_iff
    {context : Context}
    {action : Except Failure α}
    {result : α} :
    inContext context action = .ok result ↔ action = .ok result := by
  cases action with
  | error failure => simp
  | ok value => simp

/-- An action on a list gives the values of the action on its elements. -/
theorem mapM_eq_ok_iff
    {action : α → Except ε β}
    {elements : List α}
    {results : List β} :
    elements.mapM action = .ok results ↔
      List.Forall₂ (fun element result => action element = .ok result)
        elements results := by
  induction elements generalizing results with
  | nil =>
      cases results with
      | nil => simp [pure, Except.pure]
      | cons first rest => simp [pure, Except.pure]
  | cons element others inductionHypothesis =>
      rw [List.mapM_cons, bind_eq_ok_iff]
      constructor
      · rintro ⟨first, firstOk, restOk⟩
        obtain ⟨rest, othersOk, equal⟩ := bind_eq_ok_iff.mp restOk
        cases equal
        exact .cons firstOk (inductionHypothesis.mp othersOk)
      · rintro (_ | ⟨firstOk, restOk⟩)
        exact ⟨_, firstOk, bind_eq_ok_iff.mpr
          ⟨_, inductionHypothesis.mpr restOk, rfl⟩⟩

/-- An action that gives a value on every element gives a list of values. -/
theorem mapM_eq_ok_map
    {action : α → Except ε β}
    {value : α → β}
    {elements : List α}
    (succeeds : ∀ element ∈ elements, action element = .ok (value element)) :
    elements.mapM action = .ok (elements.map value) := by
  rw [mapM_eq_ok_iff, List.forall₂_map_right_iff, List.forall₂_same]
  exact succeeds

/-- Actions that agree on the elements of a list agree on the list. -/
theorem mapM_congr
    {first second : α → Except ε β}
    {elements : List α}
    (same : ∀ element ∈ elements, first element = second element) :
    elements.mapM first = elements.mapM second := by
  induction elements with
  | nil => rfl
  | cons element others inductionHypothesis =>
      obtain ⟨elementSame, othersSame⟩ := List.forall_mem_cons.mp same
      simp only [List.mapM_cons, elementSame, inductionHypothesis othersSame]

/-- An action on a list fails with the failure of an element. -/
theorem exists_mem_of_mapM_eq_error
    {action : α → Except ε β}
    {elements : List α}
    {failure : ε}
    (fails : elements.mapM action = .error failure) :
    ∃ element ∈ elements, action element = .error failure := by
  induction elements with
  | nil => cases fails
  | cons element others inductionHypothesis =>
      rw [List.mapM_cons] at fails
      cases result : action element with
      | error own =>
          rw [result] at fails
          cases fails
          exact ⟨element, .head _, result⟩
      | ok value =>
          cases rest : others.mapM action with
          | error own =>
              rw [result, rest] at fails
              cases fails
              obtain ⟨other, member, otherFails⟩ := inductionHypothesis rest
              exact ⟨other, .tail _ member, otherFails⟩
          | ok values =>
              rw [result, rest] at fails
              cases fails

/-! ## Malformed texts -/

/-- An action fails only because a text does not follow its format. -/
def OnlyMalformed (action : Except Failure α) : Prop :=
  ∀ failure, action = .error failure →
    ∃ malformation, failure.cause = .malformed malformation

theorem onlyMalformed_ok (value : α) :
    OnlyMalformed (.ok value) :=
  nofun

theorem onlyMalformed_malformed (malformation : Malformation) :
    OnlyMalformed (.error (.malformed malformation) : Except Failure α) := by
  rintro _ ⟨⟩
  exact ⟨malformation, rfl⟩

theorem OnlyMalformed.bind
    {action : Except Failure α}
    {next : α → Except Failure β}
    (first : OnlyMalformed action)
    (others : ∀ value, OnlyMalformed (next value)) :
    OnlyMalformed (action >>= next) := by
  intro failure fails
  cases result : action with
  | error own =>
      rw [result] at fails
      obtain rfl := Except.error.inj fails
      exact first own result
  | ok value =>
      rw [result] at fails
      exact others value failure fails

theorem OnlyMalformed.inContext
    {action : Except Failure α}
    (only : OnlyMalformed action)
    (context : Context) :
    OnlyMalformed (OrderEncoding.inContext context action) := by
  intro failure fails
  cases result : action with
  | error own =>
      rw [result, inContext_error] at fails
      obtain rfl := Except.error.inj fails
      exact only own result
  | ok value =>
      rw [result, inContext_ok] at fails
      contradiction

end Results
end OrderEncoding
