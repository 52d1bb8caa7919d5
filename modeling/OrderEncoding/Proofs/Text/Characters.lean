import OrderEncoding.Problem.Side
import OrderEncoding.Proofs.Text.Blanks

/-!
# Classes of characters

The characters of names and numbers lie apart from blanks, signs, brackets and
the other marks of the format.
-/

namespace OrderEncoding
namespace Text

/-- A character of a name or a number, or a star. -/
def isTermCharacter (character : Char) : Bool :=
  character.isAlphanum || character == '_' || character == '*'

/-- The letters are the characters of two ranges. -/
theorem isAlpha_iff
    {character : Char} :
    character.isAlpha = true ↔
      65 ≤ character.toNat ∧ character.toNat ≤ 90 ∨
        97 ≤ character.toNat ∧ character.toNat ≤ 122 := by
  have expanded : character.isAlpha =
      (decide ('A'.val ≤ character.val ∧ character.val ≤ 'Z'.val) ||
        decide ('a'.val ≤ character.val) &&
          decide (character.val ≤ 'z'.val)) := rfl
  rw [expanded, Bool.or_eq_true, Bool.and_eq_true, decide_eq_true_iff,
    decide_eq_true_iff, decide_eq_true_iff]
  exact .rfl

theorem toNat_of_isAlphanum
    {character : Char}
    (alphanumeric : character.isAlphanum = true) :
    48 ≤ character.toNat ∧ character.toNat ≤ 122 := by
  rw [Char.isAlphanum, Bool.or_eq_true, isAlpha_iff, Char.isDigit_iff_toNat]
    at alphanumeric
  have codes : '0'.toNat = 48 ∧ '9'.toNat = 57 := ⟨rfl, rfl⟩
  omega

theorem toNat_of_isTermCharacter
    {character : Char}
    (ofTerm : isTermCharacter character = true) :
    42 ≤ character.toNat ∧ character.toNat ≤ 122 := by
  simp only [isTermCharacter, Bool.or_eq_true, beq_iff_eq] at ofTerm
  rcases ofTerm with (alphanumeric | rfl) | rfl
  · have := toNat_of_isAlphanum alphanumeric
    omega
  · decide
  · decide

/-- A character between the space and the delete character is no blank. -/
theorem isBlank_eq_false
    {character : Char}
    (visible : 33 ≤ character.toNat ∧ character.toNat ≤ 126) :
    isBlank character = false := by
  simp only [isBlank, Bool.or_eq_false_iff, Bool.and_eq_false_iff,
    decide_eq_false_iff_not, beq_eq_false_iff_ne]
  omega

/-- Among the ASCII characters the decimal digits of all scripts are the ASCII
digits. -/
theorem isDecimalDigit_eq_isDigit
    {character : Char}
    (ascii : character.toNat ≤ 127) :
    isDecimalDigit character = character.isDigit := by
  have later : ∀ first ∈ zeroDigits, first = 48 ∨ 127 < first := by decide
  rw [Bool.eq_iff_iff]
  refine ⟨fun decimal => ?_, isDecimalDigit_of_isDigit⟩
  simp only [isDecimalDigit, List.any_eq_true, Bool.and_eq_true,
    decide_eq_true_eq] at decimal
  obtain ⟨first, member, low, high⟩ := decimal
  rcases later first member with rfl | large
  · have codes : '0'.toNat = 48 ∧ '9'.toNat = 57 := ⟨rfl, rfl⟩
    rw [Char.isDigit_iff_toNat]
    omega
  · omega

theorem isDigit_eq_false_of_isAlpha
    {character : Char}
    (alphabetic : character.isAlpha = true) :
    character.isDigit = false := by
  have codes : '0'.toNat = 48 ∧ '9'.toNat = 57 := ⟨rfl, rfl⟩
  rw [Bool.eq_false_iff, Ne, Char.isDigit_iff_toNat]
  rw [isAlpha_iff] at alphabetic
  omega

/-- No name begins with a decimal digit of any script. -/
theorem isDecimalDigit_eq_false_of_isAlpha
    {character : Char}
    (alphabetic : character.isAlpha = true) :
    isDecimalDigit character = false := by
  have alphanumeric : character.isAlphanum = true := by
    rw [Char.isAlphanum, alphabetic, Bool.true_or]
  have range := toNat_of_isAlphanum alphanumeric
  rw [isDecimalDigit_eq_isDigit (by omega),
    isDigit_eq_false_of_isAlpha alphabetic]

/-- A character of a side of a comparison. -/
def isSideCharacter (character : Char) : Bool :=
  isTermCharacter character || Side.isSign character

theorem isBlank_eq_false_of_isSideCharacter
    {character : Char}
    (ofSide : isSideCharacter character = true) :
    isBlank character = false := by
  apply isBlank_eq_false
  simp only [isSideCharacter, Side.isSign, Bool.or_eq_true, beq_iff_eq] at ofSide
  rcases ofSide with ofTerm | rfl | rfl
  · have := toNat_of_isTermCharacter ofTerm
    omega
  · decide
  · decide

/-- A character of a class is none of those outside of it. -/
theorem ne_of_class
    {isMember : Char → Bool}
    {character other : Char}
    (member : isMember character = true)
    (outside : isMember other = false) :
    character ≠ other := by
  rintro rfl
  rw [member] at outside
  contradiction

end Text

theorem all_isTermCharacter_of_isIdentifier
    {name : List Char}
    (identifier : isIdentifier name = true) :
    name.all Text.isTermCharacter = true := by
  cases name with
  | nil => rfl
  | cons first rest =>
      rw [isIdentifier, Bool.and_eq_true, List.all_eq_true] at identifier
      obtain ⟨alphabetic, others⟩ := identifier
      rw [List.all_cons, Bool.and_eq_true, List.all_eq_true]
      constructor
      · simp [Text.isTermCharacter, Char.isAlphanum, alphabetic]
      · intro character member
        have allowed := others character member
        rw [Text.isTermCharacter, allowed, Bool.true_or]

theorem blankFree_of_isIdentifier
    {name : List Char}
    (identifier : isIdentifier name = true) :
    Text.BlankFree name := by
  intro character member
  have ofTerm := List.all_eq_true.mp
    (all_isTermCharacter_of_isIdentifier identifier) character member
  have range := Text.toNat_of_isTermCharacter ofTerm
  exact Text.isBlank_eq_false (by omega)

end OrderEncoding
