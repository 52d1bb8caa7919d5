import Mathlib.Data.List.Induction
import Mathlib.Data.List.Nodup

/-!
# Lists without repetitions

Dropping the repeated elements of a list leaves every element once, at the place
where it appears first, and leaves a list without repetitions as it is.
-/

namespace OrderEncoding

variable {α : Type} [DecidableEq α]

@[simp] theorem any_eraseDups
    (holds : α → Bool)
    (elements : List α) :
    elements.eraseDups.any holds = elements.any holds := by
  rw [Bool.eq_iff_iff]
  simp only [List.any_eq_true, List.mem_eraseDups]

@[simp] theorem all_eraseDups
    (holds : α → Bool)
    (elements : List α) :
    elements.eraseDups.all holds = elements.all holds := by
  rw [Bool.eq_iff_iff]
  simp only [List.all_eq_true, List.mem_eraseDups]

theorem nodup_eraseDups (elements : List α) : elements.eraseDups.Nodup := by
  match elements with
  | [] => exact List.nodup_nil
  | first :: rest =>
      have shorter := List.length_filter_le (fun element => !element == first) rest
      rw [List.eraseDups_cons, List.nodup_cons]
      refine ⟨?_, nodup_eraseDups _⟩
      simp
termination_by elements.length
decreasing_by
  simp only [List.length_cons]
  omega

theorem eraseDups_eq_self
    {elements : List α}
    (nodup : elements.Nodup) :
    elements.eraseDups = elements := by
  induction elements with
  | nil => rfl
  | cons first rest inductionHypothesis =>
      rw [List.nodup_cons] at nodup
      have unchanged : rest.filter (fun element => !element == first) = rest := by
        rw [List.filter_eq_self]
        intro element member
        simp only [Bool.not_eq_true', beq_eq_false_iff_ne]
        exact fun same => nodup.1 (same ▸ member)
      rw [List.eraseDups_cons, unchanged, inductionHypothesis nodup.2]

theorem eraseDups_ne_nil
    {elements : List α}
    (nonempty : elements ≠ []) :
    elements.eraseDups ≠ [] := by
  obtain ⟨element, member⟩ := List.exists_mem_of_ne_nil _ nonempty
  exact List.ne_nil_of_mem (List.mem_eraseDups.mpr member)

omit [DecidableEq α] in
/-- Where keys do not repeat, an element is found by its key. -/
theorem find?_eq_some_of_nodup
    {β : Type}
    [DecidableEq β]
    {key : α → β}
    {elements : List α}
    (nodup : (elements.map key).Nodup)
    {element : α}
    (member : element ∈ elements) :
    elements.find? (fun other => key other = key element) = some element := by
  cases found : elements.find? (fun other => key other = key element) with
  | none =>
      have absent := List.find?_eq_none.mp found element member
      simp at absent
  | some other =>
      have sameKey : key other = key element := by
        simpa using List.find?_some found
      exact congrArg some (List.inj_on_of_nodup_map nodup
        (List.mem_of_find?_eq_some found) member sameKey)

/-! ## Order of first appearance -/

/-- An element that was seen before is dropped. -/
theorem eraseDups_append_of_mem
    {seen : List α}
    {last : α}
    (old : last ∈ seen) :
    (seen ++ [last]).eraseDups = seen.eraseDups := by
  simp [List.eraseDups_append, List.removeAll, old]

/-- An element that was not seen before comes last. -/
theorem eraseDups_append_of_notMem
    {seen : List α}
    {last : α}
    (new : last ∉ seen) :
    (seen ++ [last]).eraseDups = seen.eraseDups ++ [last] := by
  simp [List.eraseDups_append, List.removeAll, new, List.eraseDups_cons]

/-- The elements that are left stand in the order in which they appear first. -/
theorem pairwise_idxOf_eraseDups (elements : List α) :
    elements.eraseDups.Pairwise fun first second =>
      elements.idxOf first < elements.idxOf second := by
  induction elements using List.reverseRecOn with
  | nil => exact .nil
  | append_singleton seen last inductionHypothesis =>
      have samePlace : ∀ old ∈ seen,
          (seen ++ [last]).idxOf old = seen.idxOf old :=
        fun old member => List.idxOf_append_of_mem member
      have ordered : seen.eraseDups.Pairwise fun first second =>
          (seen ++ [last]).idxOf first < (seen ++ [last]).idxOf second := by
        refine inductionHypothesis.imp_of_mem ?_
        intro first second firstMem secondMem earlier
        rwa [samePlace first (List.mem_eraseDups.mp firstMem),
          samePlace second (List.mem_eraseDups.mp secondMem)]
      by_cases old : last ∈ seen
      · rwa [eraseDups_append_of_mem old]
      · rw [eraseDups_append_of_notMem old, List.pairwise_append]
        refine ⟨ordered, List.pairwise_singleton _ _, ?_⟩
        intro first firstMem other same
        obtain rfl := List.mem_singleton.mp same
        have firstSeen := List.mem_eraseDups.mp firstMem
        rw [samePlace first firstSeen, List.idxOf_append_of_notMem old]
        have before := List.idxOf_lt_length_of_mem firstSeen
        omega

end OrderEncoding
