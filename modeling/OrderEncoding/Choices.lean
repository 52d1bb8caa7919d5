/-!
# Choices from a list of lists

`choices sets` holds every way to pick one element of each list, in
lexicographic order of the positions: the first list varies slowest.
-/

namespace OrderEncoding

/-- Every choice of one element of each list, in lexicographic order. -/
def choices : List (List α) → List (List α)
  | [] => [[]]
  | set :: rest =>
    set.flatMap fun element => (choices rest).map (element :: ·)

@[simp] theorem choices_nil : choices ([] : List (List α)) = [[]] := rfl

@[simp] theorem choices_cons
    (set : List α)
    (rest : List (List α)) :
    choices (set :: rest) =
      set.flatMap fun element => (choices rest).map (element :: ·) := rfl

end OrderEncoding
