import Mathlib.Data.List.Forall2

/-!
# Lists related element by element

Elements that correspond to each other in two related lists.
-/

namespace OrderEncoding

variable {α β γ : Type} {related : α → β → Prop} {left : List α} {right : List β}

theorem exists_forall₂
    (exists_related : ∀ element ∈ left, ∃ other, related element other) :
    ∃ others, List.Forall₂ related left others := by
  induction left with
  | nil => exact ⟨[], .nil⟩
  | cons first rest inductionHypothesis =>
      obtain ⟨other, firstRelated⟩ := exists_related first (.head _)
      obtain ⟨others, restRelated⟩ := inductionHypothesis
        fun element member => exists_related element (.tail _ member)
      exact ⟨other :: others, .cons firstRelated restRelated⟩

/-- Relations compose along lists. -/
theorem forall₂_trans
    {next : β → γ → Prop}
    {composed : α → γ → Prop}
    (compose : ∀ element middle other, related element middle →
      next middle other → composed element other)
    {last : List γ}
    (pairs : List.Forall₂ related left right)
    (nextPairs : List.Forall₂ next right last) :
    List.Forall₂ composed left last := by
  induction pairs generalizing last with
  | nil =>
      obtain rfl := List.forall₂_nil_left_iff.mp nextPairs
      exact .nil
  | cons firstRelated _ inductionHypothesis =>
      cases nextPairs with
      | cons nextRelated nextRest =>
          exact .cons (compose _ _ _ firstRelated nextRelated)
            (inductionHypothesis nextRest)

theorem exists_related_of_mem_left
    (pairs : List.Forall₂ related left right)
    {element : α}
    (member : element ∈ left) :
    ∃ other ∈ right, related element other := by
  induction pairs with
  | nil => contradiction
  | @cons first second _ _ firstRelated _ inductionHypothesis =>
      rcases List.mem_cons.mp member with rfl | inRest
      · exact ⟨second, .head _, firstRelated⟩
      · obtain ⟨other, otherMem, otherRelated⟩ := inductionHypothesis inRest
        exact ⟨other, .tail _ otherMem, otherRelated⟩

theorem exists_related_of_mem_right
    (pairs : List.Forall₂ related left right)
    {element : β}
    (member : element ∈ right) :
    ∃ other ∈ left, related other element :=
  exists_related_of_mem_left pairs.flip member

/-- A list that is related to two lists in a row falls into two parts. -/
theorem forall₂_append_left_iff
    {first second : List α} :
    List.Forall₂ related (first ++ second) right ↔
      ∃ one other, List.Forall₂ related first one ∧
        List.Forall₂ related second other ∧ right = one ++ other := by
  constructor
  · intro pairs
    have taken := List.forall₂_take first.length pairs
    have dropped := List.forall₂_drop first.length pairs
    rw [List.take_left] at taken
    rw [List.drop_left] at dropped
    exact ⟨_, _, taken, dropped, (List.take_append_drop _ _).symm⟩
  · rintro ⟨one, other, firstPairs, secondPairs, rfl⟩
    exact List.rel_append firstPairs secondPairs

/-- Related lists are still related without the elements at one place. -/
theorem forall₂_eraseIdx
    (pairs : List.Forall₂ related left right)
    (index : Nat) :
    List.Forall₂ related (left.eraseIdx index) (right.eraseIdx index) := by
  rw [List.eraseIdx_eq_take_drop_succ, List.eraseIdx_eq_take_drop_succ]
  exact List.rel_append (List.forall₂_take index pairs)
    (List.forall₂_drop (index + 1) pairs)

/-- Functions that agree on related elements agree on related lists. -/
theorem map_eq_map_of_forall₂
    {first : α → γ}
    {second : β → γ}
    (agree : ∀ element other, related element other →
      first element = second other)
    (pairs : List.Forall₂ related left right) :
    left.map first = right.map second := by
  rw [← List.forall₂_eq_eq_eq]
  exact List.rel_map agree pairs

/-- Lists are equal when a function that tells their elements apart has the same
values on them. -/
theorem eq_of_map_eq_map
    {function : α → β}
    {one other : List α}
    (apart : ∀ first ∈ one, ∀ second ∈ other,
      function first = function second → first = second)
    (same : one.map function = other.map function) :
    one = other := by
  induction one generalizing other with
  | nil => exact (List.map_eq_nil_iff.mp same.symm).symm
  | cons first rest inductionHypothesis =>
      cases other with
      | nil => contradiction
      | cons second others =>
          obtain ⟨firstSame, restSame⟩ := List.cons.inj same
          rw [apart first (.head _) second (.head _) firstSame,
            inductionHypothesis (fun left leftMem right rightMem =>
              apart left (.tail _ leftMem) right (.tail _ rightMem)) restSame]

/-- Lists are related by a function when the second one holds its values. -/
theorem forall₂_iff_map_eq
    {function : α → β}
    (functional : ∀ element other,
      related element other ↔ function element = other) :
    List.Forall₂ related left right ↔ left.map function = right := by
  have same : related = fun element other => function element = other := by
    funext element other
    exact propext (functional element other)
  rw [same, ← List.forall₂_map_left_iff, List.forall₂_eq_eq_eq]

/-- Lists are related by a partial function when it is defined on the elements of
the first one and the second one holds its values. -/
theorem forall₂_iff_eq_map
    {defined : α → Prop}
    {function : α → β}
    (functional : ∀ element ∈ left, ∀ other,
      related element other ↔ defined element ∧ other = function element) :
    List.Forall₂ related left right ↔
      (∀ element ∈ left, defined element) ∧ right = left.map function := by
  induction left generalizing right with
  | nil => simp
  | cons first rest inductionHypothesis =>
      obtain ⟨firstIff, restIff⟩ := List.forall_mem_cons.mp functional
      simp only [List.forall₂_cons_left_iff, firstIff,
        inductionHypothesis restIff, List.forall_mem_cons, List.map_cons]
      constructor
      · rintro ⟨_, _, ⟨firstDefined, rfl⟩, ⟨restDefined, rfl⟩, rfl⟩
        exact ⟨⟨firstDefined, restDefined⟩, rfl⟩
      · rintro ⟨⟨firstDefined, restDefined⟩, rfl⟩
        exact ⟨_, _, ⟨firstDefined, rfl⟩, ⟨restDefined, rfl⟩, rfl⟩

/-- If every related pair comes from some source of its left element, then the
left list comes from a list of sources. -/
theorem exists_map_eq_of_forall₂
    (function : γ → α)
    (source : γ → β → Prop)
    (sources : ∀ element other, related element other →
      ∃ origin, function origin = element ∧ source origin other)
    (pairs : List.Forall₂ related left right) :
    ∃ origins, origins.map function = left ∧
      List.Forall₂ source origins right := by
  induction pairs with
  | nil => exact ⟨[], rfl, .nil⟩
  | cons firstRelated _ inductionHypothesis =>
      obtain ⟨origin, rfl, originSource⟩ := sources _ _ firstRelated
      obtain ⟨origins, rfl, originSources⟩ := inductionHypothesis
      exact ⟨origin :: origins, rfl, .cons originSource originSources⟩

end OrderEncoding
