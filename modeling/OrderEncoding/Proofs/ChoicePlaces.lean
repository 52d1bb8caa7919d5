import OrderEncoding.Proofs.Choices

/-!
# The places of choices

The positions that a choice takes its elements from are the digits of a numeral
whose radices are the lengths of the lists, the first digit the most significant.
That numeral is the place of the choice among all choices, so every choice of
positions is made once, and in lexicographic order.  Extending the choices from the
first lists by the elements of one more list, list after list, gives the same.
-/

namespace OrderEncoding

/-! ## Numerals of mixed radix -/

/-- The number that digits denote.  A digit counts for as much as the product of
the radices after its own. -/
def mixedRadix : List Nat → List Nat → Nat
  | _ :: radices, digit :: digits =>
    digit * radices.prod + mixedRadix radices digits
  | _, _ => 0

/-- Every digit is smaller than its radix. -/
def AreDigits (radices digits : List Nat) : Prop :=
  List.Forall₂ (· < ·) digits radices

theorem mixedRadix_lt_prod
    {radices digits : List Nat}
    (areDigits : AreDigits radices digits) :
    mixedRadix radices digits < radices.prod := by
  induction areDigits with
  | nil => exact Nat.one_pos
  | @cons digit radix digits radices small _ inductionHypothesis =>
      rw [mixedRadix, List.prod_cons]
      calc
        digit * radices.prod + mixedRadix radices digits <
            digit * radices.prod + radices.prod :=
          Nat.add_lt_add_left inductionHypothesis _
        _ = (digit + 1) * radices.prod := (Nat.succ_mul _ _).symm
        _ ≤ radix * radices.prod := Nat.mul_le_mul_right _ small

/-- Numbers are compared by their quotients first, then by their remainders. -/
theorem mul_add_lt_mul_add_iff
    {radix quotient otherQuotient remainder otherRemainder : Nat}
    (small : remainder < radix)
    (otherSmall : otherRemainder < radix) :
    quotient * radix + remainder < otherQuotient * radix + otherRemainder ↔
      quotient < otherQuotient ∨
        quotient = otherQuotient ∧ remainder < otherRemainder := by
  have below {first second : Nat} (less : first < second) :
      first * radix + radix ≤ second * radix := by
    rw [← Nat.succ_mul]
    exact Nat.mul_le_mul_right _ less
  rcases Nat.lt_trichotomy quotient otherQuotient with less | rfl | greater
  · have := below less
    omega
  · omega
  · have := below greater
    omega

/-- The order of the numbers is the lexicographic order of the digits. -/
theorem mixedRadix_lt_iff
    {radices digits others : List Nat}
    (areDigits : AreDigits radices digits)
    (othersAreDigits : AreDigits radices others) :
    mixedRadix radices digits < mixedRadix radices others ↔ digits < others := by
  induction areDigits generalizing others with
  | nil =>
      cases othersAreDigits
      simp
  | cons _ restAreDigits inductionHypothesis =>
      cases othersAreDigits with
      | cons _ otherRestAreDigits =>
          rw [mixedRadix, mixedRadix, mul_add_lt_mul_add_iff
              (mixedRadix_lt_prod restAreDigits)
              (mixedRadix_lt_prod otherRestAreDigits),
            inductionHypothesis otherRestAreDigits, List.cons_lt_cons_iff]

theorem mixedRadix_inj
    {radices digits others : List Nat}
    (areDigits : AreDigits radices digits)
    (othersAreDigits : AreDigits radices others)
    (same : mixedRadix radices digits = mixedRadix radices others) :
    digits = others := by
  have notBefore := (mixedRadix_lt_iff areDigits othersAreDigits).not.mp
    (by rw [same]; exact Nat.lt_irrefl _)
  have notAfter := (mixedRadix_lt_iff othersAreDigits areDigits).not.mp
    (by rw [same]; exact Nat.lt_irrefl _)
  exact List.le_antisymm (List.not_lt.mp notAfter) (List.not_lt.mp notBefore)

/-- Every number below the product of the radices has digits. -/
theorem exists_mixedRadix_eq
    {radices : List Nat}
    {number : Nat}
    (below : number < radices.prod) :
    ∃ digits, AreDigits radices digits ∧ mixedRadix radices digits = number := by
  induction radices generalizing number with
  | nil => exact ⟨[], .nil, (Nat.lt_one_iff.mp below).symm⟩
  | cons radix radices inductionHypothesis =>
      rw [List.prod_cons] at below
      have nonempty : 0 < radices.prod := Nat.pos_of_mul_pos_left
        (Nat.lt_of_le_of_lt (Nat.zero_le number) below)
      obtain ⟨digits, areDigits, denoted⟩ :=
        inductionHypothesis (Nat.mod_lt number nonempty)
      refine ⟨number / radices.prod :: digits,
        .cons ((Nat.div_lt_iff_lt_mul nonempty).mpr below) areDigits, ?_⟩
      rw [mixedRadix, denoted, Nat.mul_comm]
      exact Nat.div_add_mod number radices.prod

/-! ## Choices by their positions -/

variable {α : Type*}

/-- In parts of one length, joined, an element is found by its part first. -/
theorem getElem?_flatMap_of_length_eq
    {β : Type*}
    {part : α → List β}
    {width : Nat}
    (even : ∀ element, (part element).length = width)
    (elements : List α)
    (place : Nat)
    {offset : Nat}
    (inside : offset < width) :
    (elements.flatMap part)[place * width + offset]? =
      elements[place]?.bind fun element => (part element)[offset]? := by
  induction elements generalizing place with
  | nil => rfl
  | cons first rest inductionHypothesis =>
      rw [List.flatMap_cons]
      cases place with
      | zero =>
          rw [Nat.zero_mul, Nat.zero_add,
            List.getElem?_append_left (by rw [even]; exact inside)]
          rfl
      | succ place =>
          have past : (part first).length ≤ (place + 1) * width + offset := by
            rw [even, Nat.succ_mul]
            omega
          have left : (place + 1) * width + offset - (part first).length =
              place * width + offset := by
            rw [even, Nat.succ_mul]
            omega
          rw [List.getElem?_append_right past, left, inductionHypothesis,
            List.getElem?_cons_succ]

/-- The choice of the elements at some positions stands at the place that the
positions denote. -/
theorem exists_choice_at
    {sets : List (List α)}
    {positions : List Nat}
    (areDigits : AreDigits (sets.map List.length) positions) :
    ∃ choice,
      (choices sets)[mixedRadix (sets.map List.length) positions]? = some choice ∧
      List.zipWith (fun set position => set[position]?) sets positions =
        choice.map some := by
  induction sets generalizing positions with
  | nil =>
      cases areDigits
      exact ⟨[], rfl, rfl⟩
  | cons set rest inductionHypothesis =>
      obtain _ | ⟨inside, restAreDigits⟩ := areDigits
      rename_i position others
      obtain ⟨choice, found, elements⟩ := inductionHypothesis restAreDigits
      -- Each element of the first list heads as many choices as the rest allows.
      have width : ∀ element : α,
          ((choices rest).map (element :: ·)).length =
            (rest.map List.length).prod := by
        intro element
        rw [List.length_map, length_choices]
      have picked : set[position]? = some set[position] :=
        List.getElem?_eq_getElem inside
      refine ⟨set[position] :: choice, ?_, ?_⟩
      · rw [choices_cons, List.map_cons, mixedRadix,
          getElem?_flatMap_of_length_eq width _ _
            (mixedRadix_lt_prod restAreDigits),
          picked, Option.bind_some, List.getElem?_map, found]
        rfl
      · rw [List.zipWith_cons_cons, elements, picked, List.map_cons]

theorem choices_eq_nil_of_mem
    {sets : List (List α)}
    (someEmpty : [] ∈ sets) :
    choices sets = [] := by
  rw [← List.length_eq_zero_iff, length_choices,
    List.prod_eq_zero_iff_exists_zero_nat]
  exact ⟨0, List.mem_map.mpr ⟨[], someEmpty, rfl⟩, rfl⟩

/-! ## Choices list after list -/

/-- Every combination with every element of one more list, the combinations varying
slowest. -/
def extendEach (combinations : List (List α)) (set : List α) : List (List α) :=
  combinations.flatMap fun combination =>
    set.map fun element => combination ++ [element]

/-- The choices from lists, found by extending those from the first lists by one
list after the other. -/
def extendedChoices (sets : List (List α)) : List (List α) :=
  sets.foldl extendEach [[]]

/-- What the combinations are when the remaining lists have been worked off. -/
theorem foldl_extendEach
    (sets combinations : List (List α)) :
    sets.foldl extendEach combinations =
      combinations.flatMap fun combination =>
        (choices sets).map (combination ++ ·) := by
  induction sets generalizing combinations with
  | nil => simp
  | cons set rest inductionHypothesis =>
      rw [List.foldl_cons, inductionHypothesis, extendEach, List.flatMap_assoc]
      congr 1
      funext combination
      rw [List.flatMap_map, choices_cons, List.map_flatMap]
      congr 1
      funext element
      simp

theorem extendedChoices_eq_choices (sets : List (List α)) :
    extendedChoices sets = choices sets := by
  rw [extendedChoices, foldl_extendEach]
  simp

/-- The choices from lists, found list after list or not, are as many as the product
of the lengths of the lists says.  The elements at given positions are chosen at the
place that the positions denote as digits of mixed radix, the first list the most
significant; every place has positions of its own, and the order of the places is
the lexicographic order of the positions.  From no lists there is one choice, the
empty one, and from lists with an empty one among them there is none. -/
theorem choices_lexicographic (sets : List (List α)) :
    extendedChoices sets = choices sets ∧
      (choices sets).length = (sets.map List.length).prod ∧
      (∀ positions, AreDigits (sets.map List.length) positions →
        ∃ choice,
          (choices sets)[mixedRadix (sets.map List.length) positions]? =
            some choice ∧
          List.zipWith (fun set position => set[position]?) sets positions =
            choice.map some) ∧
      (∀ place < (choices sets).length,
        ∃! positions, AreDigits (sets.map List.length) positions ∧
          mixedRadix (sets.map List.length) positions = place) ∧
      (∀ positions others, AreDigits (sets.map List.length) positions →
        AreDigits (sets.map List.length) others →
        (mixedRadix (sets.map List.length) positions <
            mixedRadix (sets.map List.length) others ↔ positions < others)) ∧
      choices ([] : List (List α)) = [[]] ∧
      ([] ∈ sets → choices sets = []) := by
  refine ⟨extendedChoices_eq_choices sets, length_choices sets,
    fun positions => exists_choice_at, ?_,
    fun positions others => mixedRadix_lt_iff, choices_nil, choices_eq_nil_of_mem⟩
  intro place inside
  rw [length_choices] at inside
  obtain ⟨positions, areDigits, denoted⟩ := exists_mixedRadix_eq inside
  refine ⟨positions, ⟨areDigits, denoted⟩, ?_⟩
  rintro others ⟨othersAreDigits, othersDenoted⟩
  exact mixedRadix_inj othersAreDigits areDigits
    (othersDenoted.trans denoted.symm)

/-- The second element of the first list and the first of the second one are chosen
after the three choices with the first element. -/
theorem choices_lexicographic_two_lists :
    AreDigits [2, 3] [1, 0] ∧
      (choices [[1, 2], [3, 4, 5]])[3]? = some [2, 3] ∧
      ([0, 2] < [1, 0] ∧ mixedRadix [2, 3] [0, 2] < mixedRadix [2, 3] [1, 0]) ∧
      (∃! positions, AreDigits [2, 3] positions ∧ mixedRadix [2, 3] positions = 5) ∧
      choices [[1, 2], []] = [] := by
  obtain ⟨_, _, chosen, unique, ordered, _, _⟩ :=
    choices_lexicographic [[1, 2], [3, 4, 5]]
  obtain ⟨_, _, _, _, _, _, empty⟩ := choices_lexicographic [[1, 2], []]
  have digits : AreDigits [2, 3] [1, 0] := by
    unfold AreDigits
    decide
  have earlier : AreDigits [2, 3] [0, 2] := by
    unfold AreDigits
    decide
  obtain ⟨choice, found, elements⟩ := chosen [1, 0] digits
  obtain rfl : [2, 3] = choice :=
    List.map_injective_iff.mpr (fun _ _ => Option.some.inj) elements
  have before : [0, 2] < [1, 0] := by decide
  exact ⟨digits, found, ⟨before, (ordered _ _ earlier digits).mpr before⟩,
    unique 5 (by decide), empty (by decide)⟩

end OrderEncoding
