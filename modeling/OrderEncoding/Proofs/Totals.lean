import Mathlib.Data.List.Forall2
import OrderEncoding.Total

/-!
# Comparing totals

Totals of lists that are compared element by element, and of lists that differ at
one place.
-/

namespace OrderEncoding

variable {α : Type}

theorem total_map_neg
    (function : α → Int)
    (elements : List α) :
    total (elements.map fun element => -function element) =
      -total (elements.map function) := by
  induction elements with
  | nil => rfl
  | cons first rest inductionHypothesis =>
      simp only [List.map_cons, total_cons, inductionHypothesis]
      omega

theorem total_le_total
    {left right : List Int}
    (below : List.Forall₂ (· ≤ ·) left right) :
    total left ≤ total right := by
  induction below with
  | nil => exact Int.le_refl 0
  | cons first rest inductionHypothesis =>
      simp only [total_cons]
      omega

/-- Elements that are all smaller make the total smaller by their number. -/
theorem total_add_length_le_total
    {left right : List Int}
    (below : List.Forall₂ (· < ·) left right) :
    total left + left.length ≤ total right := by
  induction below with
  | nil => exact Int.le_refl 0
  | cons first rest inductionHypothesis =>
      simp only [total_cons, List.length_cons]
      omega

/-- An element is determined by the total and by the other elements. -/
theorem eq_of_eraseIdx_eq
    {left right : List Int}
    (sameLength : left.length = right.length)
    (sameTotal : total left = total right)
    {index : Nat}
    (same : left.eraseIdx index = right.eraseIdx index) :
    left = right := by
  induction left generalizing right index with
  | nil => exact (List.length_eq_zero_iff.mp sameLength.symm).symm
  | cons first rest inductionHypothesis =>
      cases right with
      | nil => contradiction
      | cons second others =>
          rw [total_cons, total_cons] at sameTotal
          cases index with
          | zero =>
              obtain rfl : rest = others := same
              obtain rfl : first = second := by omega
              rfl
          | succ index =>
              obtain ⟨rfl, restSame⟩ := List.cons.inj same
              rw [inductionHypothesis (Nat.succ.inj sameLength) (by omega)
                restSame]

end OrderEncoding
