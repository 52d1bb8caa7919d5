import OrderEncoding.Proofs.Problem.Layout
import OrderEncoding.Proofs.Problem.Terms
import OrderEncoding.Proofs.Problem.WellFormed

/-!
# Declarations

The words outside of the brackets of a text are read as declarations when they
come in threes: a name, and the numerals of two bounds.  Brackets may stand
anywhere between them, even within a declaration.
-/

namespace OrderEncoding
namespace Written

/-! ## Numerals -/

/-- A word is a numeral of a machine integer when it is the text of a term that is
a number and nothing more. -/
def IsNumeral (word : List Char) (value : Int) : Prop :=
  ∃ term : Term, term.Proper ∧ term.name = [] ∧ term.text = word ∧
    term.coefficient = value ∧ Word.Fits value

@[simp] theorem Term.text_number
    (sign : Option Sign)
    (digits : List Char) :
    Term.text { sign, digits } = (sign.map Sign.character).toList ++ digits := by
  simp [Term.text, Term.mark, Term.body, Term.factor]

theorem IsNumeral.fits
    {word : List Char}
    {value : Int}
    (numeral : IsNumeral word value) :
    Word.Fits value := by
  obtain ⟨_, _, _, _, _, fits⟩ := numeral
  exact fits

/-- Digits that are read after an optional sign are a numeral. -/
theorem isNumeral_of_readDigits?
    (sign : Option Sign)
    {digits : List Char}
    {value : Int}
    (reads : ((Numeral.readDigits? digits).bind fun size =>
      Word.check? (if sign = some .minus then -(size : Int) else size)) =
        some value) :
    IsNumeral ((sign.map Sign.character).toList ++ digits) value := by
  obtain ⟨size, sizeReads, checked⟩ := Option.bind_eq_some_iff.mp reads
  obtain ⟨fits, rfl⟩ := Word.check?_eq_some_iff.mp checked
  obtain ⟨nonempty, ascii, rfl⟩ := Numeral.readDigits?_eq_some_iff.mp sizeReads
  refine ⟨{ sign, digits }, ⟨ascii, .inl ⟨rfl, nonempty, rfl⟩⟩, rfl,
    Term.text_number sign digits, ?_, fits⟩
  rw [Term.coefficient, Term.size, if_neg nonempty]

end Written

namespace Numeral

open Written (IsNumeral)

/-- The words that are read as machine integers are their numerals. -/
theorem readWord?_eq_some_iff_isNumeral
    {word : List Char}
    {value : Int} :
    readWord? word = some value ↔ IsNumeral word value := by
  constructor
  · intro reads
    unfold readWord? at reads
    split at reads
    next digits => exact Written.isNumeral_of_readDigits? (some .minus) reads
    next digits => exact Written.isNumeral_of_readDigits? (some .plus) reads
    next digits => exact Written.isNumeral_of_readDigits? none reads
  · rintro ⟨⟨sign, digits, star, name⟩, proper, rfl, rfl, rfl, fits⟩
    obtain ⟨_, nonempty, rfl⟩ : _ ∧ digits ≠ [] ∧ star = false :=
      proper.complete.resolve_right Bool.false_ne_true
    have decimal : digits.all Text.isDecimalDigit = true := proper.decimal
    have ascii : digits.all Char.isDigit = true := proper.digits
    have sizeReads : readDigits? digits = some (Nat.ofDigitChars 10 digits 0) :=
      readDigits?_eq_some_iff.mpr ⟨nonempty, ascii, rfl⟩
    rw [Written.Term.coefficient, Written.Term.size, if_neg nonempty] at fits ⊢
    rw [Written.Term.text_number]
    cases sign with
    | none => exact (readWord?_eq_some_iff nonempty decimal).mpr ⟨ascii, fits, rfl⟩
    | some sign =>
        cases sign with
        | plus =>
            exact Option.bind_eq_some_iff.mpr
              ⟨_, sizeReads, Word.check?_eq_some_iff.mpr ⟨fits, rfl⟩⟩
        | minus =>
            exact Option.bind_eq_some_iff.mpr
              ⟨_, sizeReads, Word.check?_eq_some_iff.mpr ⟨fits, rfl⟩⟩

end Numeral

namespace Written

/-! ## Words outside of the brackets -/

/-- The words outside of the brackets.  A section separates words. -/
def Layout.words (layout : Layout) : List (List Char) :=
  Text.words layout.front ++
    layout.sections.flatMap fun part => Text.words part.behind

theorem Layout.words_outside (layout : Layout) :
    Text.words layout.outside = layout.words := by
  obtain ⟨front, sections⟩ := layout
  rw [outside, words]
  induction sections generalizing front with
  | nil => rw [List.flatMap_nil, List.flatMap_nil, List.append_nil, List.append_nil]
  | cons part rest inductionHypothesis =>
      have blank : Text.isBlank ' ' = true := by decide
      rw [List.flatMap_cons, List.flatMap_cons, ← inductionHypothesis part.behind]
      exact (Text.words_append_blank_cons front _ blank).trans
        (congrArg (Text.words front ++ ·) (Text.words_blank_cons blank _))

/-- The three words of a declaration. -/
structure Declaration where
  name : List Char
  lower : List Char
  upper : List Char
deriving DecidableEq, Repr

/-- The words of a declaration. -/
def Declaration.words (declaration : Declaration) : List (List Char) :=
  [declaration.name, declaration.lower, declaration.upper]

/-- A declaration declares a variable when it gives the name and the bounds.  The
integer below the lower bound must still be a machine integer. -/
structure Declaration.Declares
    (declaration : Declaration)
    (x : Variable) : Prop where
  identifier : isIdentifier declaration.name = true
  name : x.name = String.ofList declaration.name
  lower : IsNumeral declaration.lower x.lower
  upper : IsNumeral declaration.upper x.upper
  aboveLeast : Word.least < x.lower

theorem Declaration.Declares.wellFormed
    {declaration : Declaration}
    {x : Variable}
    (declares : declaration.Declares x) :
    x.WellFormed := by
  refine ⟨?_, declares.aboveLeast, declares.upper.fits.2⟩
  rw [declares.name, String.toList_ofList]
  exact declares.identifier

/-- A layout declares some variables when its words are their declarations, in
order, and no name is declared twice. -/
def Layout.Declares (layout : Layout) (vars : List Variable) : Prop :=
  ∃ declarations : List Declaration,
    layout.words = declarations.flatMap Declaration.words ∧
    List.Forall₂ Declaration.Declares declarations vars ∧
    (vars.map Variable.name).Nodup

end Written

theorem Variable.ofBounds_eq_ok_iff
    {name : String}
    {lower upper : Int}
    {x : Variable} :
    ofBounds name lower upper = .ok x ↔
      lower ≠ Word.least ∧ x.name = name ∧ x.lower = lower ∧
        x.upper = upper := by
  obtain ⟨xName, xLower, xUpper, ordered⟩ := x
  unfold ofBounds
  constructor
  · intro builds
    split at builds
    · split at builds
      · contradiction
      · rename_i aboveLeast
        cases builds
        exact ⟨aboveLeast, rfl, rfl, rfl⟩
    · contradiction
  · rintro ⟨aboveLeast, rfl, rfl, rfl⟩
    rw [dif_pos ordered, if_neg aboveLeast]

namespace Problem

open Written (Declaration Layout)

/-! ## Words that are declarations -/

theorem readBound_eq_ok_iff
    {name word : List Char}
    {bound : Int} :
    readBound name word = .ok bound ↔ Written.IsNumeral word bound := by
  rw [← Numeral.readWord?_eq_some_iff_isNumeral, readBound]
  cases Numeral.readWord? word with
  | none => simp
  | some bound => simp

/-- When a declaration is read. -/
theorem readDeclaration_eq_ok_iff
    {declared : List String}
    {declaration : Declaration}
    {x : Variable} :
    readDeclaration declared declaration.name declaration.lower
        declaration.upper = .ok x ↔
      declaration.Declares x ∧ x.name ∉ declared := by
  rw [readDeclaration]
  constructor
  · intro reads
    split at reads
    next noIdentifier => contradiction
    next identifier =>
      split at reads
      next again => contradiction
      next fresh =>
        obtain ⟨low, lowReads, reads⟩ := Results.bind_eq_ok_iff.mp reads
        obtain ⟨high, highReads, reads⟩ := Results.bind_eq_ok_iff.mp reads
        rw [Results.inContext_eq_ok_iff, Variable.ofBounds_eq_ok_iff] at reads
        rw [readBound_eq_ok_iff] at lowReads highReads
        obtain ⟨notLeast, sameName, rfl, rfl⟩ := reads
        have aboveLeast : Word.least < x.lower :=
          Int.lt_iff_le_and_ne.mpr ⟨lowReads.fits.1, notLeast.symm⟩
        exact ⟨⟨by simpa using identifier, sameName, lowReads, highReads,
          aboveLeast⟩, sameName ▸ fresh⟩
  · rintro ⟨⟨identifier, sameName, lower, upper, aboveLeast⟩, fresh⟩
    rw [if_neg (by simp [identifier]), if_neg (sameName ▸ fresh)]
    refine Results.bind_eq_ok_iff.mpr
      ⟨x.lower, readBound_eq_ok_iff.mpr lower, ?_⟩
    refine Results.bind_eq_ok_iff.mpr
      ⟨x.upper, readBound_eq_ok_iff.mpr upper, ?_⟩
    rw [Results.inContext_eq_ok_iff, Variable.ofBounds_eq_ok_iff]
    exact ⟨Int.ne_of_gt aboveLeast, sameName, rfl, rfl⟩

/-- Names are new, each of them once, when the first one is and the others still
are after it. -/
theorem newNames_cons_iff
    {declared : List String}
    {x : Variable}
    {others : List Variable} :
    (((x :: others).map Variable.name).Nodup ∧
        ∀ y ∈ x :: others, y.name ∉ declared) ↔
      x.name ∉ declared ∧ (others.map Variable.name).Nodup ∧
        ∀ y ∈ others, y.name ∉ declared ++ [x.name] := by
  rw [List.map_cons, List.nodup_cons, List.forall_mem_cons, List.mem_map]
  simp only [List.mem_append, List.mem_singleton, not_or]
  constructor
  · rintro ⟨⟨notAgain, nodup⟩, fresh, othersFresh⟩
    exact ⟨fresh, nodup, fun y member =>
      ⟨othersFresh y member, fun same => notAgain ⟨y, member, same⟩⟩⟩
  · rintro ⟨fresh, nodup, othersNew⟩
    refine ⟨⟨?_, nodup⟩, fresh, fun y member => (othersNew y member).1⟩
    rintro ⟨y, member, same⟩
    exact (othersNew y member).2 same

/-- Words are read as declarations when they are those of declarations of new
names, each of them declared once. -/
theorem readDeclarations_eq_ok_iff
    {declared : List String}
    {words : List (List Char)}
    {vars : List Variable} :
    readDeclarations declared words = .ok vars ↔
      ∃ declarations : List Declaration,
        words = declarations.flatMap Declaration.words ∧
        List.Forall₂ Declaration.Declares declarations vars ∧
        (vars.map Variable.name).Nodup ∧
        ∀ x ∈ vars, x.name ∉ declared := by
  -- The names declared before grow along the words, so names are new to them.
  fun_induction readDeclarations declared words generalizing vars with
  | case1 declared =>
      rw [Except.ok.injEq]
      constructor
      · rintro rfl
        exact ⟨[], rfl, .nil, List.nodup_nil, List.forall_mem_nil _⟩
      · rintro ⟨declarations, words, pairs, _⟩
        cases pairs with
        | nil => rfl
        | cons => contradiction
  | case2 declared name lower upper rest inductionHypothesis =>
      rw [Results.bind_eq_ok_iff]
      constructor
      · rintro ⟨x, firstReads, reads⟩
        obtain ⟨others, restReads, reads⟩ := Results.bind_eq_ok_iff.mp reads
        obtain rfl := Except.ok.inj reads
        let first : Declaration := { name, lower, upper }
        obtain ⟨declares, fresh⟩ : first.Declares x ∧ x.name ∉ declared :=
          readDeclaration_eq_ok_iff.mp firstReads
        obtain ⟨declarations, rfl, pairs, restNew⟩ :=
          (inductionHypothesis x).mp restReads
        exact ⟨first :: declarations, rfl, .cons declares pairs,
          newNames_cons_iff.mpr ⟨fresh, restNew⟩⟩
      · rintro ⟨declarations, words, pairs, new⟩
        cases pairs with
        | nil => contradiction
        | @cons first x declarations others declares pairs =>
            obtain ⟨rfl, rfl, rfl, rfl⟩ := by
              simpa [Declaration.words] using words
            obtain ⟨fresh, restNew⟩ := newNames_cons_iff.mp new
            exact ⟨x, readDeclaration_eq_ok_iff.mpr ⟨declares, fresh⟩,
              Results.bind_eq_ok_iff.mpr ⟨others,
                (inductionHypothesis x).mpr ⟨declarations, rfl, pairs, restNew⟩,
                rfl⟩⟩
  | case3 declared words notEmpty notThree =>
      refine iff_of_false (by simp) ?_
      rintro ⟨declarations, rfl, _⟩
      cases declarations with
      | nil => exact notEmpty rfl
      | cons first others => exact notThree _ _ _ _ rfl

/-- A layout declares the variables that are read from its words. -/
theorem readDeclarations_words_eq_ok_iff
    {layout : Layout}
    {vars : List Variable} :
    readDeclarations [] (Text.words layout.outside) = .ok vars ↔
      layout.Declares vars := by
  rw [layout.words_outside, readDeclarations_eq_ok_iff]
  simp [Layout.Declares]

/-! ## Words that are not declarations -/

theorem onlyMalformed_readBound (name word : List Char) :
    Results.OnlyMalformed (readBound name word) := by
  rw [readBound]
  split
  next => exact Results.onlyMalformed_ok _
  next => exact Results.onlyMalformed_malformed _

theorem onlyMalformed_ofBounds
    (name : String)
    (lower upper : Int) :
    Results.OnlyMalformed (Variable.ofBounds name lower upper) := by
  unfold Variable.ofBounds
  split
  next ordered =>
    split
    next => exact Results.onlyMalformed_malformed _
    next => exact Results.onlyMalformed_ok _
  next empty => exact Results.onlyMalformed_malformed _

theorem onlyMalformed_readDeclaration
    (declared : List String)
    (name lower upper : List Char) :
    Results.OnlyMalformed (readDeclaration declared name lower upper) := by
  rw [readDeclaration]
  split
  next noIdentifier => exact Results.onlyMalformed_malformed _
  next identifier =>
    split
    next again => exact Results.onlyMalformed_malformed _
    next new =>
      refine (onlyMalformed_readBound name lower).bind fun low => ?_
      refine (onlyMalformed_readBound name upper).bind fun high => ?_
      exact (onlyMalformed_ofBounds _ low high).inContext _

/-- Words that are not read as declarations are malformed. -/
theorem onlyMalformed_readDeclarations
    (declared : List String)
    (words : List (List Char)) :
    Results.OnlyMalformed (readDeclarations declared words) := by
  fun_induction readDeclarations declared words with
  | case1 => exact Results.onlyMalformed_ok _
  | case2 declared name lower upper rest inductionHypothesis =>
      refine (onlyMalformed_readDeclaration declared name lower upper).bind
        fun x => ?_
      exact (inductionHypothesis x).bind fun _ => Results.onlyMalformed_ok _
  | case3 => exact Results.onlyMalformed_malformed _

end Problem
end OrderEncoding
