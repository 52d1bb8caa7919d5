import OrderEncoding.Proofs.Formula.Construction
import OrderEncoding.Proofs.Text.Lines
import OrderEncoding.Proofs.Text.Numerals
import OrderEncoding.Proofs.Text.Separators

/-!
# Printed atoms and literals are told apart

The text of an order atom ends in its value, which holds no comma, so whatever the
name is, the last comma divides them.  Different atoms therefore have different
texts, in the messages of failures too, and different literals have.  A printed
formula is a line for the atoms and a line for each clause; when no name has a
blank, the words of these lines are the texts of the atoms and literals.
-/

namespace OrderEncoding

theorem Numeral.comma_notMem_ofInt (value : Int) :
    ',' ∉ (Numeral.ofInt value).toList := by
  intro member
  exact absurd (Numeral.isNumeralCharacter_of_mem_ofInt member) (by decide)

namespace Atom

/-- An atom's text is a letter and, in parentheses, two parts with a comma between
them. -/
def pairText (letter : Char) (first last : List Char) : List Char :=
  letter :: '(' :: (first ++ ',' :: (last ++ [')']))

/-- If the last parts hold no comma, both parts are determined by the text. -/
theorem pairText_inj
    {letter : Char}
    {first second last otherLast : List Char}
    (lastFree : ',' ∉ last)
    (otherLastFree : ',' ∉ otherLast)
    (same : pairText letter first last = pairText letter second otherLast) :
    first = second ∧ last = otherLast := by
  have free {part : List Char} (partFree : ',' ∉ part) : ',' ∉ part ++ [')'] := by
    simp [partFree]
  obtain ⟨firstSame, lastSame⟩ := append_cons_inj_of_last (free lastFree)
    (free otherLastFree) (List.cons.inj (List.cons.inj same).2).2
  exact ⟨firstSame, List.append_cancel_right lastSame⟩

theorem toList_text_order (name : String) (value : Int) :
    (order name value).text.toList =
      pairText 'p' name.toList (Numeral.ofInt value).toList := by
  simp [text, pairText]

theorem toList_text_selector (clause literal : Nat) :
    (selector clause literal).text.toList =
      pairText 'q' (Numeral.ofInt clause).toList (Numeral.ofInt literal).toList := by
  simp [text, pairText, Numeral.ofNat_eq_ofInt]

/-- Different atoms have different texts, whatever characters their names have. -/
theorem text_injective : Function.Injective text := by
  intro left right same
  have letters := congrArg String.toList same
  cases left with
  | order name value =>
      cases right with
      | order otherName otherValue =>
          rw [toList_text_order, toList_text_order] at letters
          obtain ⟨names, values⟩ := pairText_inj (Numeral.comma_notMem_ofInt value)
            (Numeral.comma_notMem_ofInt otherValue) letters
          rw [String.toList_inj.mp names,
            Numeral.ofInt_injective (String.toList_inj.mp values)]
      | selector clause literal =>
          rw [toList_text_order, toList_text_selector] at letters
          exact absurd (List.cons.inj letters).1 (by decide)
  | selector clause literal =>
      cases right with
      | order name value =>
          rw [toList_text_order, toList_text_selector] at letters
          exact absurd (List.cons.inj letters).1 (by decide)
      | selector otherClause otherLiteral =>
          rw [toList_text_selector, toList_text_selector] at letters
          obtain ⟨clauses, literals⟩ :=
            pairText_inj (Numeral.comma_notMem_ofInt literal)
              (Numeral.comma_notMem_ofInt otherLiteral) letters
          have clauseSame := Numeral.ofInt_injective (String.toList_inj.mp clauses)
          have literalSame := Numeral.ofInt_injective (String.toList_inj.mp literals)
          rw [Int.natCast_inj.mp clauseSame, Int.natCast_inj.mp literalSame]

theorem exists_toList_text_cons (atom : Atom) :
    ∃ letter rest, atom.text.toList = letter :: rest ∧ letter ≠ '-' := by
  cases atom with
  | order name value => exact ⟨'p', _, toList_text_order name value, by decide⟩
  | selector clause literal =>
      exact ⟨'q', _, toList_text_selector clause literal, by decide⟩

theorem toList_text_ne_nil (atom : Atom) : atom.text.toList ≠ [] := by
  obtain ⟨letter, rest, starts, _⟩ := atom.exists_toList_text_cons
  rw [starts]
  exact List.cons_ne_nil _ _

/-- The name in an order atom has no blank. -/
def NamedWithoutBlanks : Atom → Prop
  | order name _ => Text.BlankFree name.toList
  | selector _ _ => True

instance (atom : Atom) : Decidable atom.NamedWithoutBlanks :=
  match atom with
  | order name _ => inferInstanceAs (Decidable (Text.BlankFree name.toList))
  | selector _ _ => .isTrue trivial

theorem blankFree_pairText
    {letter : Char}
    (visible : Text.isBlank letter = false)
    {first last : List Char}
    (firstFree : Text.BlankFree first)
    (lastFree : Text.BlankFree last) :
    Text.BlankFree (pairText letter first last) := by
  have behind : Text.BlankFree ([','] ++ (last ++ [')'])) :=
    Text.BlankFree.append (by decide) (lastFree.append (by decide))
  refine List.forall_mem_cons.mpr ⟨visible, List.forall_mem_cons.mpr ⟨by decide, ?_⟩⟩
  exact firstFree.append behind

theorem NamedWithoutBlanks.blankFree_text
    {atom : Atom}
    (named : atom.NamedWithoutBlanks) :
    Text.BlankFree atom.text.toList := by
  cases atom with
  | order name value =>
      rw [toList_text_order]
      exact blankFree_pairText (by decide) named (Numeral.blankFree_ofInt value)
  | selector clause literal =>
      rw [toList_text_selector]
      exact blankFree_pairText (by decide) (Numeral.blankFree_ofInt clause)
        (Numeral.blankFree_ofInt literal)

end Atom

namespace Literal

theorem toList_text (literal : Literal) :
    literal.text.toList =
      if literal.positive then literal.atom.text.toList
      else '-' :: literal.atom.text.toList := by
  unfold text
  split <;> simp

/-- Different literals have different texts. -/
theorem text_injective : Function.Injective text := by
  intro left right same
  have letters := congrArg String.toList same
  rw [toList_text, toList_text] at letters
  obtain ⟨positive, atom⟩ := left
  obtain ⟨otherPositive, otherAtom⟩ := right
  obtain ⟨letter, rest, starts, unsigned⟩ := atom.exists_toList_text_cons
  obtain ⟨otherLetter, otherRest, otherStarts, otherUnsigned⟩ :=
    otherAtom.exists_toList_text_cons
  -- A sign in front is told from the first letter of an atom.
  cases positive <;> cases otherPositive <;>
    simp only [if_true, if_false, Bool.false_eq_true] at letters
  · rw [Atom.text_injective (String.toList_inj.mp (List.cons.inj letters).2)]
  · rw [otherStarts] at letters
    exact absurd (List.cons.inj letters).1.symm otherUnsigned
  · rw [starts] at letters
    exact absurd (List.cons.inj letters).1 unsigned
  · rw [Atom.text_injective (String.toList_inj.mp letters)]

theorem blankFree_text
    {literal : Literal}
    (named : literal.atom.NamedWithoutBlanks) :
    Text.BlankFree literal.text.toList := by
  rw [toList_text]
  split
  next positive => exact named.blankFree_text
  next negative => exact List.forall_mem_cons.mpr ⟨by decide, named.blankFree_text⟩

theorem toList_text_ne_nil (literal : Literal) : literal.text.toList ≠ [] := by
  rw [toList_text]
  split
  next positive => exact literal.atom.toList_text_ne_nil
  next negative => exact List.cons_ne_nil _ _

end Literal

/-! ## Messages about unknown atoms -/

/-- In the same contexts, messages about different unknown atoms are different. -/
theorem Failure.message_unknownAtom_injective (contexts : List Context) :
    Function.Injective fun atom : Atom =>
      message { contexts, cause := .unknownAtom atom.text } := by
  intro left right same
  -- Both messages start with the contexts, and the atom stands between quotes.
  obtain ⟨start, ends⟩ := Text.exists_intercalate_append_singleton [':', ' ']
    (contexts.map fun context => context.text.toList)
  have letters (atom : Atom) :
      (message { contexts, cause := .unknownAtom atom.text }).toList =
        start ++ ("unknown boolean '".toList ++ (atom.text.toList ++ "'".toList)) := by
    rw [← ends, message, String.toList_intercalate]
    simp [Cause.text?, Function.comp_def]
  have sameLetters := congrArg String.toList same
  rw [letters, letters] at sameLetters
  exact Atom.text_injective (String.toList_inj.mp (List.append_cancel_right
    (List.append_cancel_left (List.append_cancel_left sameLetters))))

namespace Formula

theorem eq_unknownAtom_of_numberOf
    {formula : Formula}
    {atom : Atom}
    {failure : Failure}
    (fails : formula.numberOf atom = .error failure) :
    failure = .of (.unknownAtom atom.text) := by
  unfold numberOf at fails
  split at fails
  · contradiction
  · exact (Except.error.inj fails).symm

/-! ## Printed formulas -/

/-- The line of a clause in a printed formula. -/
def clauseLine (clause : Clause) : String :=
  "  [" ++ clause.text ++ "]"

/-- The line of the atoms in a printed formula. -/
def atomsLine (atoms : List Atom) : String :=
  "B = \x7b" ++ ", ".intercalate (atoms.map Atom.text) ++ "\x7d"

/-- The lines of a printed formula. -/
def printedLines (formula : Formula) : List String :=
  atomsLine formula.atoms :: "S = \x7b" ::
    (formula.clauses.map clauseLine ++ ["\x7d"])

theorem text_append_lineFeed (formula : Formula) :
    formula.text ++ "\n" =
      String.join (formula.printedLines.map (· ++ "\n")) := by
  have marks : "\x7d\nS = \x7b\n" = "\x7d\n" ++ "S = \x7b\n" := rfl
  simp [text, printedLines, atomsLine, clauseLine, Function.comp_def,
    String.append_assoc, String.join_append, String.join_cons]
  rw [marks, String.append_assoc]

/-- No name in a formula has a blank. -/
def NamedWithoutBlanks (formula : Formula) : Prop :=
  ∀ atom ∈ formula.atoms, atom.NamedWithoutBlanks

instance (formula : Formula) : Decidable formula.NamedWithoutBlanks :=
  inferInstanceAs (Decidable (∀ atom ∈ formula.atoms, atom.NamedWithoutBlanks))

theorem toList_atomsLine (atoms : List Atom) :
    (atomsLine atoms).toList = "B = \x7b".toList ++
      ([',', ' '].intercalate (atoms.map fun atom => atom.text.toList) ++
        ['\x7d']) := by
  simp [atomsLine, String.toList_intercalate, Function.comp_def]

theorem toList_clauseLine (clause : Clause) :
    (clauseLine clause).toList = "  [".toList ++
      ([' '].intercalate (clause.map fun literal => literal.text.toList) ++
        [']']) := by
  simp [clauseLine, Clause.text, String.toList_intercalate, Function.comp_def]

theorem unbroken_atomsLine
    {atoms : List Atom}
    (named : ∀ atom ∈ atoms, atom.NamedWithoutBlanks) :
    Text.Unbroken (atomsLine atoms).toList := by
  rw [toList_atomsLine]
  refine Text.Unbroken.append (by decide) (Text.Unbroken.append ?_ (by decide))
  apply Text.unbroken_intercalate (by decide)
  rw [List.forall_mem_map]
  exact fun atom member => (named atom member).blankFree_text.unbroken

theorem unbroken_clauseLine
    {clause : Clause}
    (named : ∀ literal ∈ clause, literal.atom.NamedWithoutBlanks) :
    Text.Unbroken (clauseLine clause).toList := by
  rw [toList_clauseLine]
  refine Text.Unbroken.append (by decide) (Text.Unbroken.append ?_ (by decide))
  apply Text.unbroken_intercalate (by decide)
  rw [List.forall_mem_map]
  exact fun literal member =>
    (Literal.blankFree_text (named literal member)).unbroken

theorem atoms_eq_of_atomsLine_eq
    {atoms others : List Atom}
    (named : ∀ atom ∈ atoms, atom.NamedWithoutBlanks)
    (othersNamed : ∀ atom ∈ others, atom.NamedWithoutBlanks)
    (same : atomsLine atoms = atomsLine others) :
    atoms = others := by
  have free {atoms : List Atom}
      (named : ∀ atom ∈ atoms, atom.NamedWithoutBlanks) :
      ∀ text ∈ atoms.map fun atom => atom.text.toList, Text.BlankFree text :=
    List.forall_mem_map.mpr fun atom member => (named atom member).blankFree_text
  have visible (atoms : List Atom) :
      ∀ text ∈ atoms.map fun atom => atom.text.toList, text ≠ [] :=
    List.forall_mem_map.mpr fun atom _ => atom.toList_text_ne_nil
  have letters := congrArg String.toList same
  rw [toList_atomsLine, toList_atomsLine] at letters
  have texts := Text.intercalate_comma_inj (free named) (visible atoms)
    (free othersNamed) (visible others)
    (List.append_cancel_right (List.append_cancel_left letters))
  exact (List.map_inj_right fun _ _ sameText =>
    Atom.text_injective (String.toList_inj.mp sameText)).mp texts

theorem clause_eq_of_clauseLine_eq
    {clause other : Clause}
    (named : ∀ literal ∈ clause, literal.atom.NamedWithoutBlanks)
    (otherNamed : ∀ literal ∈ other, literal.atom.NamedWithoutBlanks)
    (same : clauseLine clause = clauseLine other) :
    clause = other := by
  have words {clause : Clause}
      (named : ∀ literal ∈ clause, literal.atom.NamedWithoutBlanks) :
      Text.words ([' '].intercalate
          (clause.map fun literal => literal.text.toList)) =
        clause.map fun literal => literal.text.toList := by
    rw [Text.words_intercalate (by decide), Text.flatMap_words_eq_self]
    · exact List.forall_mem_map.mpr fun literal member =>
        Literal.blankFree_text (named literal member)
    · exact List.forall_mem_map.mpr fun literal _ => literal.toList_text_ne_nil
  have letters := congrArg String.toList same
  rw [toList_clauseLine, toList_clauseLine] at letters
  have texts := congrArg Text.words
    (List.append_cancel_right (List.append_cancel_left letters))
  rw [words named, words otherNamed] at texts
  exact (List.map_inj_right fun _ _ sameText =>
    Literal.text_injective (String.toList_inj.mp sameText)).mp texts

theorem WellFormed.named_of_mem_clauses
    {formula : Formula}
    (wellFormed : formula.WellFormed)
    (named : formula.NamedWithoutBlanks)
    {clause : Clause}
    (clauseMem : clause ∈ formula.clauses)
    {literal : Literal}
    (literalMem : literal ∈ clause) :
    literal.atom.NamedWithoutBlanks :=
  named _ (wellFormed.registered clause clauseMem literal literalMem)

/-- The lines of a printed formula are read back. -/
theorem WellFormed.lines_text
    {formula : Formula}
    (wellFormed : formula.WellFormed)
    (named : formula.NamedWithoutBlanks) :
    Text.lines (formula.text ++ "\n").toList =
      formula.printedLines.map String.toList := by
  rw [text_append_lineFeed]
  apply Text.lines_join
  refine List.forall_mem_cons.mpr ⟨unbroken_atomsLine named,
    List.forall_mem_cons.mpr ⟨by decide, List.forall_mem_append.mpr ⟨?_, ?_⟩⟩⟩
  · rw [List.forall_mem_map]
    exact fun clause member => unbroken_clauseLine fun literal literalMem =>
      wellFormed.named_of_mem_clauses named member literalMem
  · exact List.forall_mem_singleton.mpr (by decide)

/-- Formulas that are printed alike have the same atoms and the same clauses, if no
name has a blank. -/
theorem WellFormed.eq_of_text_eq
    {formula other : Formula}
    (wellFormed : formula.WellFormed)
    (otherWellFormed : other.WellFormed)
    (named : formula.NamedWithoutBlanks)
    (otherNamed : other.NamedWithoutBlanks)
    (same : formula.text = other.text) :
    formula.atoms = other.atoms ∧ formula.clauses = other.clauses := by
  have lines := wellFormed.lines_text named
  rw [same, otherWellFormed.lines_text otherNamed] at lines
  have printed : other.printedLines = formula.printedLines :=
    (List.map_inj_right fun _ _ => String.toList_inj.mp).mp lines
  obtain ⟨atomsSame, rest⟩ := List.cons.inj printed
  have clauses := List.append_cancel_right (List.cons.inj rest).2
  refine ⟨(atoms_eq_of_atomsLine_eq otherNamed named atomsSame).symm, ?_⟩
  apply eq_of_map_eq_map _ clauses.symm
  intro clause clauseMem otherClause otherMem
  exact clause_eq_of_clauseLine_eq
    (fun literal => wellFormed.named_of_mem_clauses named clauseMem)
    (fun literal => otherWellFormed.named_of_mem_clauses otherNamed otherMem)

/-- Different literals have different texts, whatever their names are.  So have the
messages, in the same contexts, of the failures that arise where atoms without a
number are looked up.  In a formula that was built every printed atom stands for one
atom, and every printed literal of a clause for one literal over the atoms of the
formula.  Where no name has a blank, the whole text tells formulas apart. -/
theorem printed_names_unambiguous :
    Function.Injective Literal.text ∧
      (∀ (contexts : List Context) (formula other : Formula)
        (atom otherAtom : Atom) (failure otherFailure : Failure),
        formula.numberOf atom = .error failure →
        other.numberOf otherAtom = .error otherFailure →
        Failure.message { failure with contexts } =
          Failure.message { otherFailure with contexts } →
        atom = otherAtom) ∧
      (∀ formula : Formula, formula.Built →
        (formula.atoms.map Atom.text).Nodup ∧
        ∀ clause ∈ formula.clauses, ∀ literal ∈ clause,
          ∃! printed : Literal, printed.atom ∈ formula.atoms ∧
            printed.text = literal.text) ∧
      (∀ formula other : Formula, formula.Built → other.Built →
        formula.NamedWithoutBlanks → other.NamedWithoutBlanks →
        formula.text = other.text →
        formula.atoms = other.atoms ∧ formula.clauses = other.clauses) := by
  refine ⟨Literal.text_injective, ?_, fun formula built => ⟨?_, ?_⟩, ?_⟩
  · intro contexts formula other atom otherAtom failure otherFailure fails
      otherFails same
    obtain rfl := eq_unknownAtom_of_numberOf fails
    obtain rfl := eq_unknownAtom_of_numberOf otherFails
    exact Failure.message_unknownAtom_injective contexts same
  · exact built.wellFormed.nodup.map Atom.text_injective
  · intro clause clauseMem literal literalMem
    refine ⟨literal, ⟨built.wellFormed.registered clause clauseMem literal literalMem,
      rfl⟩, fun other printed => Literal.text_injective printed.2⟩
  · intro formula other built otherBuilt named otherNamed same
    exact built.wellFormed.eq_of_text_eq otherBuilt.wellFormed named otherNamed same

/-- Names that end like an atom or hold a sign do not mislead. -/
theorem printed_names_unambiguous_odd_names :
    let odd : Atom := .order "a,0)-p(a" 1
    let plain : Atom := .order "a" 1
    let formula := (({} : Formula).register odd).register plain
    let other := (({} : Formula).register plain).register odd
    Literal.text ⟨false, odd⟩ ≠ Literal.text ⟨true, odd⟩ ∧
      formula.Built ∧ other.Built ∧
      formula.NamedWithoutBlanks ∧ other.NamedWithoutBlanks ∧
      formula.text ≠ other.text ∧ (formula.atoms.map Atom.text).Nodup ∧
      ∃ failure otherFailure, ({} : Formula).numberOf odd = .error failure ∧
        ({} : Formula).numberOf plain = .error otherFailure ∧
        Failure.message { failure with contexts := [.exportingClause 3] } ≠
          Failure.message { otherFailure with contexts := [.exportingClause 3] } := by
  intro odd plain formula other
  obtain ⟨literals, messages, entries, texts⟩ := printed_names_unambiguous
  have built : formula.Built := .tail (.tail .refl (.register _ _)) (.register _ _)
  have otherBuilt : other.Built :=
    .tail (.tail .refl (.register _ _)) (.register _ _)
  have named : formula.NamedWithoutBlanks := by decide
  have otherNamed : other.NamedWithoutBlanks := by decide
  refine ⟨literals.ne (by decide), built, otherBuilt, named, otherNamed, ?_,
    (entries formula built).1, _, _, rfl, rfl, ?_⟩
  · intro same
    have atoms := (texts formula other built otherBuilt named otherNamed same).1
    exact absurd atoms (by decide)
  · intro same
    have atoms := messages _ {} {} odd plain _ _ rfl rfl same
    exact absurd atoms (by decide)

/-- With a blank, a name can look like the end of one atom and the start of the
next. -/
example :
    text { atoms := [.order "x,0), p(y" 1] } =
      text { atoms := [.order "x" 0, .order "y" 1] } := by
  decide

end Formula
end OrderEncoding
