import OrderEncoding.Proofs.Text.Blanks
import OrderEncoding.Proofs.Text.Characters

/-!
# Reading numerals

A numeral of digits alone denotes the number that its digits make up, and every
machine integer is denoted by the numeral that is written for it.
-/

namespace OrderEncoding

namespace Text

/-- No character of a class without signs is a sign. -/
theorem isSign_eq_false_of_class
    {isMember : Char → Bool}
    {character : Char}
    (member : isMember character = true)
    (noPlus : isMember '+' = false)
    (noMinus : isMember '-' = false) :
    Side.isSign character = false := by
  rw [Side.isSign, Bool.or_eq_false_iff, beq_eq_false_iff_ne,
    beq_eq_false_iff_ne]
  exact ⟨ne_of_class member noPlus, ne_of_class member noMinus⟩

end Text

namespace Word

/-- A number that is no larger than a size that fits is itself a machine
integer. -/
theorem fits_of_natAbs_le
    {value : Int}
    {size : Nat}
    (bounded : value.natAbs ≤ size)
    (sizeBounded : (size : Int) ≤ greatest) :
    Fits value := by
  rw [greatest] at sizeBounded
  rw [Fits, least, greatest]
  omega

/-- Without its sign every machine integer is one, but for the least. -/
theorem fits_natAbs_iff
    {value : Int} :
    Fits value.natAbs ↔ Fits value ∧ value ≠ least := by
  unfold Fits least greatest
  omega

end Word

namespace Numeral

/-- Digits without a sign denote a machine integer when they are ASCII digits
and the number that they make up fits. -/
theorem readWord?_eq_some_iff
    {digits : List Char}
    (nonempty : digits ≠ [])
    (decimal : digits.all Text.isDecimalDigit = true)
    {value : Int} :
    readWord? digits = some value ↔
      digits.all Char.isDigit = true ∧
        Word.Fits (Nat.ofDigitChars 10 digits 0) ∧
        value = Nat.ofDigitChars 10 digits 0 := by
  have unsigned : readWord? digits =
      (readDigits? digits).bind fun size => Word.check? size := by
    cases digits with
    | nil => contradiction
    | cons first rest =>
        rw [List.all_cons, Bool.and_eq_true] at decimal
        have notPlus : first ≠ '+' := Text.ne_of_class decimal.1 (by decide)
        have notMinus : first ≠ '-' := Text.ne_of_class decimal.1 (by decide)
        unfold readWord?
        split
        · simp_all
        · simp_all
        · rfl
  rw [unsigned, readDigits?]
  by_cases ascii : digits.all Char.isDigit = true
  · rw [if_pos ⟨nonempty, ascii⟩, Option.bind_some, Word.check?_eq_some_iff]
    simp only [ascii, true_and]
  · rw [if_neg (fun both => ascii both.2), Option.bind_none]
    simp only [ascii, false_and, reduceCtorEq]

/-- A word is the numeral of an unsigned machine integer when it is an optional
`+` and ASCII digits that make up the integer. -/
def IsCount (word : List Char) (count : Nat) : Prop :=
  ∃ digits, (word = digits ∨ word = '+' :: digits) ∧ digits ≠ [] ∧
    digits.all Char.isDigit = true ∧ Nat.ofDigitChars 10 digits 0 = count ∧
    count ≤ Word.greatestCount

theorem IsCount.bounded
    {word : List Char}
    {count : Nat}
    (numeral : IsCount word count) :
    count ≤ Word.greatestCount := by
  obtain ⟨_, _, _, _, _, bounded⟩ := numeral
  exact bounded

theorem readDigits?_eq_some_iff
    {digits : List Char}
    {size : Nat} :
    readDigits? digits = some size ↔
      digits ≠ [] ∧ digits.all Char.isDigit = true ∧
        Nat.ofDigitChars 10 digits 0 = size := by
  rw [readDigits?, Option.ite_none_right_eq_some, Option.some.injEq, and_assoc]

/-- The words that are read as unsigned machine integers are their numerals. -/
theorem readCount?_eq_some_iff_isCount
    {word : List Char}
    {count : Nat} :
    readCount? word = some count ↔ IsCount word count := by
  have counts {digits : List Char} :
      (readDigits? digits).filter (· ≤ Word.greatestCount) = some count ↔
        digits ≠ [] ∧ digits.all Char.isDigit = true ∧
          Nat.ofDigitChars 10 digits 0 = count ∧
          count ≤ Word.greatestCount := by
    rw [Option.filter_eq_some_iff, decide_eq_true_iff, readDigits?_eq_some_iff,
      and_assoc, and_assoc]
  constructor
  · intro reads
    unfold readCount? at reads
    split at reads
    next digits => exact ⟨digits, .inr rfl, counts.mp reads⟩
    next => exact ⟨word, .inl rfl, counts.mp reads⟩
  · rintro ⟨digits, rfl | rfl, counted⟩
    · have unsigned : ∀ rest, word ≠ '+' :: rest := by
        rintro rest rfl
        have first := counted.2.1
        simp at first
      rw [readCount?]
      · exact counts.mpr counted
      · exact unsigned
    · exact counts.mpr counted

/-! ## Numerals that are written -/

theorem all_isDigit_toDigits (size : Nat) :
    (Nat.toDigits 10 size).all Char.isDigit = true := by
  rw [List.all_eq_true]
  intro digit member
  exact Nat.isDigit_of_mem_toDigits (by decide) (by decide) member

/-- The sign of an integer that is written. -/
def mark (value : Int) : List Char :=
  if value < 0 then ['-'] else []

theorem toList_ofInt (value : Int) :
    (ofInt value).toList = mark value ++ Nat.toDigits 10 value.natAbs := by
  unfold ofInt mark ofNat
  split <;> simp

/-- The numeral that is written for an integer denotes it, if it is a machine
integer, and else nothing. -/
theorem readWord?_toList_ofInt_eq_some_iff
    {value result : Int} :
    readWord? (ofInt value).toList = some result ↔
      Word.Fits value ∧ result = value := by
  rw [toList_ofInt, mark]
  split
  · rename_i negative
    have sizeEq : -(value.natAbs : Int) = value := by omega
    simp only [List.cons_append, List.nil_append, readWord?,
      readDigits?_toDigits, Option.bind_some, sizeEq]
    exact Word.check?_eq_some_iff
  · rename_i nonnegative
    have sizeEq : (value.natAbs : Int) = value := by omega
    have ascii := all_isDigit_toDigits value.natAbs
    have decimal : (Nat.toDigits 10 value.natAbs).all Text.isDecimalDigit =
        true :=
      List.all_eq_true.mpr fun digit member =>
        Text.isDecimalDigit_of_isDigit (List.all_eq_true.mp ascii digit member)
    rw [List.nil_append, readWord?_eq_some_iff Nat.toDigits_ne_nil decimal,
      Nat.ofDigitChars_ten_toDigits, sizeEq]
    exact and_iff_right ascii

/-- A machine integer is denoted by the numeral that is written for it. -/
theorem readWord?_toList_ofInt
    {value : Int}
    (fits : Word.Fits value) :
    readWord? (ofInt value).toList = some value :=
  readWord?_toList_ofInt_eq_some_iff.mpr ⟨fits, rfl⟩

/-- Whether a character occurs in numerals that are written. -/
def isNumeralCharacter (character : Char) : Bool :=
  character.isDigit || character == '-'

theorem isNumeralCharacter_of_mem_ofInt
    {value : Int}
    {character : Char}
    (member : character ∈ (ofInt value).toList) :
    isNumeralCharacter character = true := by
  rw [toList_ofInt] at member
  rw [isNumeralCharacter, Bool.or_eq_true, beq_iff_eq]
  rcases List.mem_append.mp member with inMark | inDigits
  · rw [mark] at inMark
    split at inMark
    · exact .inr (List.eq_of_mem_singleton inMark)
    · contradiction
  · exact .inl (List.all_eq_true.mp (all_isDigit_toDigits _) character inDigits)

theorem isSideCharacter_of_isNumeralCharacter
    {character : Char}
    (ofNumeral : isNumeralCharacter character = true) :
    Text.isSideCharacter character = true := by
  rw [isNumeralCharacter, Bool.or_eq_true, beq_iff_eq] at ofNumeral
  rcases ofNumeral with digit | rfl
  · rw [Text.isSideCharacter, Text.isTermCharacter, Char.isAlphanum, digit,
      Bool.or_true, Bool.true_or, Bool.true_or, Bool.true_or]
  · decide

theorem isSideCharacter_of_mem_ofInt
    {value : Int}
    {character : Char}
    (member : character ∈ (ofInt value).toList) :
    Text.isSideCharacter character = true :=
  isSideCharacter_of_isNumeralCharacter (isNumeralCharacter_of_mem_ofInt member)

theorem blankFree_ofInt (value : Int) :
    Text.BlankFree (ofInt value).toList :=
  fun _ member => Text.isBlank_eq_false_of_isSideCharacter
    (isSideCharacter_of_mem_ofInt member)

theorem toList_ofInt_ne_nil (value : Int) : (ofInt value).toList ≠ [] := by
  rw [toList_ofInt]
  exact List.append_ne_nil_of_right_ne_nil _ Nat.toDigits_ne_nil

/-- A numeral starts with one of its characters. -/
theorem exists_toList_ofInt_cons (value : Int) :
    ∃ first more, (ofInt value).toList = first :: more ∧
      isNumeralCharacter first = true := by
  obtain ⟨first, more, written⟩ :=
    List.exists_cons_of_ne_nil (toList_ofInt_ne_nil value)
  have member : first ∈ (ofInt value).toList := written ▸ .head more
  exact ⟨first, more, written, isNumeralCharacter_of_mem_ofInt member⟩

theorem minus_mem_ofInt_iff
    {value : Int} :
    '-' ∈ (ofInt value).toList ↔ value < 0 := by
  have digits : '-' ∉ Nat.toDigits 10 value.natAbs := fun member =>
    absurd (List.all_eq_true.mp (all_isDigit_toDigits _) _ member) (by decide)
  rw [toList_ofInt, mark, List.mem_append, or_iff_left digits]
  split
  next negative => simp [negative]
  next nonnegative => simp [nonnegative]

/-- Different integers are written differently. -/
theorem ofInt_injective : Function.Injective ofInt := by
  intro left right same
  have signs : left < 0 ↔ right < 0 := by
    rw [← minus_mem_ofInt_iff, same, minus_mem_ofInt_iff]
  have written : mark left ++ Nat.toDigits 10 left.natAbs =
      mark right ++ Nat.toDigits 10 right.natAbs := by
    rw [← toList_ofInt, same, toList_ofInt]
  simp only [mark, signs] at written
  have sizes := congrArg (Nat.ofDigitChars 10 · 0)
    (List.append_cancel_left written)
  simp only [Nat.ofDigitChars_ten_toDigits] at sizes
  omega

/-- A natural number is written as the integer that it is. -/
theorem ofNat_eq_ofInt (count : Nat) : ofNat count = ofInt count := by
  rw [ofInt, if_neg (by omega), Int.natAbs_natCast]

/-- The numeral that is written for a count denotes it, if it is an unsigned
machine integer, and else nothing. -/
theorem readCount?_toList_ofNat_eq_some_iff
    {count result : Nat} :
    readCount? (ofNat count).toList = some result ↔
      count ≤ Word.greatestCount ∧ result = count := by
  have unsigned : ∀ rest, Nat.toDigits 10 count ≠ '+' :: rest := by
    intro rest plus
    have digit := List.all_eq_true.mp (all_isDigit_toDigits count) '+'
      (plus ▸ .head rest)
    contradiction
  rw [ofNat, String.toList_ofList, readCount?]
  · rw [readDigits?_toDigits, Option.filter_eq_some_iff, Option.some.injEq,
      decide_eq_true_iff, eq_comm (a := count)]
    constructor
    · rintro ⟨rfl, bounded⟩
      exact ⟨bounded, rfl⟩
    · rintro ⟨bounded, rfl⟩
      exact ⟨rfl, bounded⟩
  · exact unsigned

end Numeral
end OrderEncoding
