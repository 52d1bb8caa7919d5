import OrderEncoding.Proofs.Problem.Written
import OrderEncoding.Proofs.Text.Numerals

/-!
# Reading terms

A chunk is read as a term when it is the text of a proper written term whose
number is a machine integer and whose name is declared.
-/

namespace OrderEncoding
namespace Written
namespace Term

/-- The parts that a reader takes a term for. -/
def parts (term : Term) : OrderEncoding.Side.Parts :=
  { negative := decide (term.sign = some .minus)
    digits := term.digits
    name := term.name }

theorem Proper.decimal
    {term : Term}
    (proper : term.Proper) :
    term.digits.all Text.isDecimalDigit = true := by
  have ascii := List.all_eq_true.mp proper.digits
  exact List.all_eq_true.mpr fun digit member =>
    Text.isDecimalDigit_of_isDigit (ascii digit member)

theorem Complete.factor_cases
    {term : Term}
    (complete : term.Complete) :
    term.factor = [] ∧ term.name = [] ∧ term.digits ≠ [] ∨
      ∃ first rest, term.factor = first :: rest ∧
        Text.isDecimalDigit first = false ∧
        OrderEncoding.Side.isSign first = false := by
  rcases complete with ⟨noName, digits, noStar⟩ | identifier
  · exact .inl ⟨by simp [factor, noName, noStar], noName, digits⟩
  · right
    cases starred : term.star with
    | true => exact ⟨'*', term.name, by simp [factor, starred], by decide, by decide⟩
    | false =>
        cases named : term.name with
        | nil => simp [named, isIdentifier] at identifier
        | cons first rest =>
            rw [named, isIdentifier, Bool.and_eq_true] at identifier
            refine ⟨first, rest, by simp [factor, starred, named],
              Text.isDecimalDigit_eq_false_of_isAlpha identifier.1, ?_⟩
            exact Text.isSign_eq_false_of_class identifier.1 (by decide) (by decide)

/-- The number of a term is what a reader takes for it. -/
theorem Complete.split_body
    {term : Term}
    (complete : term.Complete)
    (digits : term.digits.all Text.isDecimalDigit = true) :
    term.body.takeWhile Text.isDecimalDigit = term.digits ∧
      term.body.dropWhile Text.isDecimalDigit = term.factor := by
  have allDigits := List.all_eq_true.mp digits
  rw [body, List.takeWhile_append_of_pos allDigits,
    List.dropWhile_append_of_pos allDigits]
  rcases complete.factor_cases with
    ⟨noFactor, _⟩ | ⟨first, rest, factorEq, notDigit, _⟩
  · simp [noFactor]
  · simp [factorEq, notDigit]

/-- No complete term has a second sign. -/
theorem Complete.isSign_head
    {term : Term}
    (complete : term.Complete)
    (digits : term.digits.all Text.isDecimalDigit = true) :
    ∃ first rest, term.body = first :: rest ∧
      OrderEncoding.Side.isSign first = false := by
  rw [body]
  cases written : term.digits with
  | nil =>
      rcases complete.factor_cases with
        ⟨_, _, nonempty⟩ | ⟨first, rest, factorEq, _, notSign⟩
      · contradiction
      · exact ⟨first, rest, factorEq, notSign⟩
  | cons first rest =>
      rw [written, List.all_cons, Bool.and_eq_true] at digits
      exact ⟨first, rest ++ term.factor, rfl,
        Text.isSign_eq_false_of_class digits.1 (by decide) (by decide)⟩

/-- The text of a proper term without its sign holds no marks but a star. -/
theorem Proper.all_body
    {term : Term}
    (proper : term.Proper) :
    term.body.all Text.isTermCharacter = true := by
  have digits := List.all_eq_true.mp proper.digits
  have name : term.name.all Text.isTermCharacter = true := by
    rcases proper.complete with ⟨noName, _⟩ | identifier
    · rw [noName]; rfl
    · exact all_isTermCharacter_of_isIdentifier identifier
  rw [body, factor, List.all_append, List.all_append, name, Bool.and_true,
    Bool.and_eq_true, List.all_eq_true]
  constructor
  · intro digit member
    simp [Text.isTermCharacter, Char.isAlphanum, digits digit member]
  · split
    · rfl
    · rfl

theorem Proper.text_ne_nil
    {term : Term}
    (proper : term.Proper) :
    term.text ≠ [] := by
  obtain ⟨first, rest, bodyEq, _⟩ := proper.complete.isSign_head proper.decimal
  rw [text, bodyEq]
  exact List.append_ne_nil_of_right_ne_nil _ (List.cons_ne_nil _ _)

/-- A sign stands at the beginning of a term only. -/
theorem Proper.unsigned_tail
    {term : Term}
    (proper : term.Proper) :
    ∀ character ∈ term.text.tail,
      OrderEncoding.Side.isSign character = false := by
  intro character member
  have inBody : character ∈ term.body := by
    rw [text, mark] at member
    cases signEq : term.sign with
    | none =>
        rw [signEq] at member
        exact List.mem_of_mem_tail member
    | some sign =>
        rw [signEq] at member
        exact member
  exact Text.isSign_eq_false_of_class
    (List.all_eq_true.mp proper.all_body character inBody) (by decide) (by decide)

/-- A term with a sign begins with it. -/
theorem head?_append_text
    (term : Term)
    (signed : term.sign ≠ none)
    (rest : List Char) :
    (term.text ++ rest).head?.all OrderEncoding.Side.isSign = true := by
  obtain ⟨sign, signEq⟩ := Option.ne_none_iff_exists'.mp signed
  rw [text, mark, signEq]
  cases sign <;> rfl

end Term
end Written

namespace Side

open Written (Term)

theorem splitSign_text
    {term : Term}
    (notSign : ∃ first rest, term.body = first :: rest ∧ isSign first = false) :
    splitSign term.text = (decide (term.sign = some .minus), term.body) := by
  obtain ⟨first, rest, bodyEq, firstNotSign⟩ := notSign
  rw [Term.text, Term.mark, bodyEq]
  cases term.sign with
  | none =>
      rw [isSign, Bool.or_eq_false_iff, beq_eq_false_iff_ne,
        beq_eq_false_iff_ne] at firstNotSign
      simp only [Option.map_none, Option.toList_none, List.nil_append]
      unfold splitSign
      split <;> simp_all
  | some sign => cases sign <;> rfl

/-- Taking the sign off a chunk leaves the rest of it. -/
theorem splitSign_eq
    {chunk body : List Char}
    {negative : Bool}
    (splits : splitSign chunk = (negative, body)) :
    ∃ sign : Option Written.Sign,
      chunk = (sign.map Written.Sign.character).toList ++ body ∧
        negative = decide (sign = some .minus) := by
  unfold splitSign at splits
  split at splits <;> obtain ⟨rfl, rfl⟩ := Prod.mk.inj splits
  · exact ⟨some .minus, rfl, rfl⟩
  · exact ⟨some .plus, rfl, rfl⟩
  · exact ⟨none, rfl, rfl⟩

/-- A complete term has the parts that it was written with. -/
theorem parts?_text
    {term : Term}
    (complete : term.Complete)
    (decimal : term.digits.all Text.isDecimalDigit = true) :
    parts? term.text = some term.parts := by
  obtain ⟨takes, drops⟩ := complete.split_body decimal
  rw [parts?, splitSign_text (complete.isSign_head decimal)]
  dsimp only
  rw [takes, drops, Term.parts]
  rcases complete with ⟨noName, digits, noStar⟩ | identifier
  · simp [Term.factor, noName, noStar, digits]
  · obtain ⟨first, rest, named⟩ : ∃ first rest, term.name = first :: rest := by
      cases named : term.name with
      | nil => simp [named, isIdentifier] at identifier
      | cons first rest => exact ⟨first, rest, rfl⟩
    have notStar : first ≠ '*' := by
      rw [named, isIdentifier, Bool.and_eq_true] at identifier
      rintro rfl
      exact absurd identifier.1 (by decide)
    cases starred : term.star with
    | true => simp [Term.factor, starred, identifier]
    | false =>
        rw [named] at identifier
        simp only [Term.factor, starred, named, Bool.false_eq_true, if_false,
          List.nil_append]
        split
        · contradiction
        · simp_all
        · rw [if_pos identifier]

/-- Only texts of complete terms have parts. -/
theorem exists_term_of_parts?
    {chunk : List Char}
    {parts : Parts}
    (hasParts : parts? chunk = some parts) :
    ∃ term : Term, term.digits.all Text.isDecimalDigit = true ∧
      term.Complete ∧ term.text = chunk := by
  rcases splits : splitSign chunk with ⟨negative, body⟩
  obtain ⟨sign, rfl, _⟩ := splitSign_eq splits
  have bodyEq := List.takeWhile_append_dropWhile
    (p := Text.isDecimalDigit) (l := body)
  have decimal := List.all_takeWhile (p := Text.isDecimalDigit) (l := body)
  rw [parts?, splits] at hasParts
  dsimp only at hasParts
  generalize body.takeWhile Text.isDecimalDigit = digits at *
  generalize body.dropWhile Text.isDecimalDigit = factor at *
  split at hasParts <;> split at hasParts
  · contradiction
  · rename_i nonempty
    refine ⟨{ sign, digits }, decimal, .inl ⟨rfl, ?_, rfl⟩, ?_⟩
    · simpa using nonempty
    · simp [Term.text, Term.mark, Term.body, Term.factor, ← bodyEq]
  · rename_i name identifier
    refine ⟨{ sign, digits, star := true, name }, decimal, .inr identifier, ?_⟩
    simp [Term.text, Term.mark, Term.body, Term.factor, ← bodyEq]
  · contradiction
  · rename_i identifier
    refine ⟨{ sign, digits, name := factor }, decimal, .inr identifier, ?_⟩
    simp [Term.text, Term.mark, Term.body, Term.factor, ← bodyEq]
  · contradiction

end Side

namespace Written
namespace Term

/-- What a term denotes over the given variables. -/
inductive Denotes (scope : List Variable) (term : Term) : SideTerm → Prop where
  | constant :
      term.name = [] → Word.Fits term.size →
      Denotes scope term (.constant term.coefficient)
  | monomial (var : Variable) :
      term.name ≠ [] → Word.Fits term.size → term.coefficient ≠ 0 →
      scope.find? (·.name = String.ofList term.name) = some var →
      Denotes scope term (.monomial { var, coefficient := term.coefficient })

end Term
end Written

namespace Side

open Written (Term)

theorem parts_size?_eq_some_iff
    {term : Term}
    (decimal : term.digits.all Text.isDecimalDigit = true)
    {size : Int} :
    term.parts.size? = some size ↔
      term.digits.all Char.isDigit = true ∧ Word.Fits term.size ∧
        size = term.size := by
  rw [Parts.size?, Term.parts, Term.size]
  dsimp only
  split
  · rename_i empty
    rw [List.isEmpty_iff] at empty
    simp only [empty, List.all_nil, if_true, true_and, Option.some.injEq]
    constructor
    · rintro rfl
      exact ⟨by decide, rfl⟩
    · exact fun both => both.2.symm
  · rename_i nonempty
    rw [List.isEmpty_iff] at nonempty
    rw [if_neg nonempty, Numeral.readWord?_eq_some_iff nonempty decimal]

/-- A complete term is read as what it denotes, if its number consists of ASCII
digits. -/
theorem readTerm_text_eq_ok_iff
    {scope : List Variable}
    {term : Term}
    (complete : term.Complete)
    (decimal : term.digits.all Text.isDecimalDigit = true)
    {result : SideTerm} :
    readTerm scope term.text = .ok result ↔
      term.digits.all Char.isDigit = true ∧ term.Denotes scope result := by
  rw [readTerm, parts?_text complete decimal]
  dsimp only
  cases sized : term.parts.size? with
  | none =>
      constructor
      · exact fun error => nomatch error
      rintro ⟨ascii, denotes⟩
      have fits : Word.Fits term.size := by cases denotes <;> assumption
      rw [(parts_size?_eq_some_iff decimal).mpr ⟨ascii, fits, rfl⟩] at sized
      contradiction
  | some size =>
      obtain ⟨ascii, fits, rfl⟩ := (parts_size?_eq_some_iff decimal).mp sized
      have coefficient :
          (if term.parts.negative then -(term.size : Int) else term.size) =
            term.coefficient := by
        simp [Term.parts, Term.coefficient]
      simp only [coefficient, ascii, true_and]
      constructor
      · intro reads
        split at reads
        · rename_i noName
          obtain rfl := Except.ok.inj reads
          exact .constant (List.isEmpty_iff.mp noName) fits
        · rename_i named
          split at reads
          · contradiction
          · rename_i nonzero
            split at reads
            · contradiction
            · rename_i var found
              obtain rfl := Except.ok.inj reads
              exact .monomial var (mt List.isEmpty_iff.mpr named) fits nonzero
                found
      · intro denotes
        cases denotes with
        | constant noName _ => simp [Term.parts, noName]
        | monomial var named _ nonzero found =>
            have nonempty : ¬term.parts.name.isEmpty = true :=
              mt List.isEmpty_iff.mp named
            have foundParts : scope.find?
                (·.name = String.ofList term.parts.name) = some var := found
            rw [if_neg nonempty, if_neg nonzero, foundParts]

/-- A chunk is read as the denotation of a proper term that it is the text
of. -/
theorem readTerm_eq_ok_iff
    {scope : List Variable}
    {chunk : List Char}
    {result : SideTerm} :
    readTerm scope chunk = .ok result ↔
      ∃ term : Term, term.Proper ∧ term.text = chunk ∧
        term.Denotes scope result := by
  constructor
  · intro reads
    obtain ⟨parts, hasParts⟩ : ∃ parts, parts? chunk = some parts := by
      cases hasParts : parts? chunk with
      | none => rw [readTerm, hasParts] at reads; contradiction
      | some parts => exact ⟨parts, rfl⟩
    obtain ⟨term, decimal, complete, rfl⟩ := exists_term_of_parts? hasParts
    obtain ⟨ascii, denotes⟩ :=
      (readTerm_text_eq_ok_iff complete decimal).mp reads
    exact ⟨term, ⟨ascii, complete⟩, rfl, denotes⟩
  · rintro ⟨term, proper, rfl, denotes⟩
    exact (readTerm_text_eq_ok_iff proper.complete proper.decimal).mpr
      ⟨proper.digits, denotes⟩


end Side
end OrderEncoding
