/-!
# Totals

The sum of a list of integers.
-/

namespace OrderEncoding

/-- The sum of a list of integers. -/
def total : List Int → Int
  | [] => 0
  | first :: rest => first + total rest

@[simp] theorem total_nil : total [] = 0 := rfl

@[simp] theorem total_cons
    (first : Int)
    (rest : List Int) :
    total (first :: rest) = first + total rest := rfl

@[simp] theorem total_append
    (left right : List Int) :
    total (left ++ right) = total left + total right := by
  induction left with
  | nil => simp
  | cons first rest inductionHypothesis =>
    simp only [List.cons_append, total_cons, inductionHypothesis]
    omega

end OrderEncoding
