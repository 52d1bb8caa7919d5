import OrderEncoding.Proofs.Dimacs.Format
import OrderEncoding.Proofs.Formula.Construction
import OrderEncoding.Proofs.Text.Lines
import OrderEncoding.Proofs.Text.Numerals

/-!
# Reading back numbered clauses

The text of numbered clauses is read back as the same clauses, whatever the
comment is, as long as the numbers of atoms and clauses are machine integers.
Otherwise it is not read at all.  A formula that is built is written without
failure, and is read back from its text and the list of its atoms.
-/

namespace OrderEncoding
namespace Dimacs

open Text (BlankFree Unbroken trim words)

/-! ## The lines that are written -/

/-- The characters of a clause's line. -/
def clauseText (numbers : List Int) : List Char :=
  numbers.flatMap (fun number => (Numeral.ofInt number).toList ++ [' ']) ++ ['0']

/-- The characters of a header. -/
def headerText (atomCount clauseCount : Nat) : List Char :=
  ['p', ' ', 'c', 'n', 'f', ' '] ++ (Numeral.ofNat atomCount).toList ++
    ' ' :: (Numeral.ofNat clauseCount).toList

/-- The lines of the text of numbered clauses. -/
def writtenLines (numbered : NumberedClauses) (comment : String) :
    List (List Char) :=
  ['c' :: ' ' :: origin.toList, 'c' :: ' ' :: (commentLine comment).toList, ['c'],
    headerText numbered.atomCount numbered.clauses.length] ++
  numbered.clauses.map clauseText

theorem toList_clauseLine (numbers : List Int) :
    (clauseLine numbers).toList = clauseText numbers ++ ['\n'] := by
  simp [clauseLine, clauseText, String.toList_join, List.flatMap_map]

theorem toList_text
    (numbered : NumberedClauses)
    (comment : String) :
    (numbered.text comment).toList =
      (writtenLines numbered comment).flatMap (· ++ ['\n']) := by
  simp [NumberedClauses.text, preamble, writtenLines, headerText,
    String.toList_join, List.flatMap_map, toList_clauseLine]

theorem unbroken_ofInt (number : Int) :
    Unbroken (Numeral.ofInt number).toList := by
  intro character member
  have plain := Numeral.isNumeralCharacter_of_mem_ofInt member
  exact ⟨Text.ne_of_class plain (by decide), Text.ne_of_class plain (by decide)⟩

theorem unbroken_ofNat (count : Nat) :
    Unbroken (Numeral.ofNat count).toList :=
  Numeral.ofNat_eq_ofInt count ▸ unbroken_ofInt count

theorem unbroken_clauseText (numbers : List Int) :
    Unbroken (clauseText numbers) := by
  intro character member
  simp only [clauseText, List.mem_append, List.mem_flatMap,
    List.mem_singleton] at member
  rcases member with ⟨number, _, inNumber | rfl⟩ | rfl
  · exact unbroken_ofInt number character inNumber
  · decide
  · decide

theorem unbroken_headerText (atomCount clauseCount : Nat) :
    Unbroken (headerText atomCount clauseCount) := by
  have keyword : Unbroken ['p', ' ', 'c', 'n', 'f', ' '] := by decide
  have space : Unbroken [' '] := by decide
  exact (keyword.append (unbroken_ofNat atomCount)).append
    (space.append (unbroken_ofNat clauseCount))

/-- Line breaks of a comment are not written. -/
theorem unbroken_commentLine (comment : String) :
    Unbroken (commentLine comment).toList := by
  intro character member
  rw [commentLine, String.toList_ofList, List.mem_map] at member
  obtain ⟨original, _, rfl⟩ := member
  split
  next => decide
  next unbroken =>
    rw [not_or] at unbroken
    exact unbroken.symm

theorem unbroken_of_mem_writtenLines
    {numbered : NumberedClauses}
    {comment : String}
    {line : List Char}
    (member : line ∈ writtenLines numbered comment) :
    Unbroken line := by
  have marked : Unbroken ['c', ' '] := by decide
  simp only [writtenLines, List.mem_append, List.mem_cons, List.mem_map,
    List.not_mem_nil, or_false] at member
  rcases member with (rfl | rfl | rfl | rfl) | ⟨numbers, _, rfl⟩
  · decide
  · exact marked.append (unbroken_commentLine comment)
  · decide
  · exact unbroken_headerText _ _
  · exact unbroken_clauseText numbers

/-! ## The written lines in the format -/

/-- A line that starts with a lone letter `c` is passed over. -/
theorem isComment_trim_cons
    {rest : List Char}
    (spaced : rest = [] ∨ ∃ more, rest = ' ' :: more) :
    IsComment (trim ('c' :: rest)) := by
  obtain ⟨kept, trimmed, kept_prefix⟩ :=
    Text.exists_trim_cons (show Text.isBlank 'c' = false by decide) rest
  rw [trimmed]
  cases kept with
  | nil => exact .inr (.inl rfl)
  | cons next others =>
      rcases spaced with rfl | ⟨more, rfl⟩
      · simp at kept_prefix
      · rw [(List.cons_prefix_cons.mp kept_prefix).1]
        exact .inr (.inr ⟨others, rfl⟩)

theorem words_ofNat (count : Nat) :
    words (Numeral.ofNat count).toList = [(Numeral.ofNat count).toList] := by
  rw [Numeral.ofNat_eq_ofInt]
  exact Text.words_eq_singleton (Numeral.blankFree_ofInt _)
    (Numeral.toList_ofInt_ne_nil _)

theorem trim_headerText (atomCount clauseCount : Nat) :
    trim (headerText atomCount clauseCount) =
      headerText atomCount clauseCount := by
  refine Text.trim_eq_self ['p'] (Numeral.ofNat clauseCount).toList ⟨_, rfl⟩
    (by decide) (by decide) ?_ ?_ ?_
  · exact ⟨['p', ' ', 'c', 'n', 'f', ' '] ++ (Numeral.ofNat atomCount).toList ++
      [' '], by simp [headerText]⟩
  · rw [Numeral.ofNat_eq_ofInt]
    exact Numeral.blankFree_ofInt _
  · rw [Numeral.ofNat_eq_ofInt]
    exact Numeral.toList_ofInt_ne_nil _

theorem words_header (atomCount clauseCount : Nat) :
    words (['c', 'n', 'f', ' '] ++ (Numeral.ofNat atomCount).toList ++
        ' ' :: (Numeral.ofNat clauseCount).toList) =
      [['c', 'n', 'f'], (Numeral.ofNat atomCount).toList,
        (Numeral.ofNat clauseCount).toList] := by
  rw [Text.words_append_blank_cons _ _ (by decide), words_ofNat]
  have first := Text.words_append_blank_cons ['c', 'n', 'f']
    (Numeral.ofNat atomCount).toList (show Text.isBlank ' ' = true by decide)
  have keyword : words ['c', 'n', 'f'] = [['c', 'n', 'f']] := by decide
  rw [keyword, words_ofNat] at first
  exact congrArg (· ++ [(Numeral.ofNat clauseCount).toList]) first

/-- A header announces its counts if they are machine integers, and else
nothing. -/
theorem announces_headerText_iff
    {atomCount clauseCount : Nat}
    {header : Header} :
    Announces (headerText atomCount clauseCount) header ↔
      (atomCount ≤ Word.greatestCount ∧ clauseCount ≤ Word.greatestCount) ∧
        header = { atomCount, clauseCount } := by
  simp only [Announces, ← Numeral.readCount?_eq_some_iff_isCount]
  constructor
  · rintro ⟨rest, atoms, clauses, written, split, atomsRead, clausesRead⟩
    obtain rfl : _ = rest := (List.cons.inj (List.cons.inj written).2).2
    have counted := split.symm.trans (words_header atomCount clauseCount)
    obtain ⟨rfl, rfl⟩ : atoms = _ ∧ clauses = _ := by simpa using counted
    obtain ⟨atomsBounded, atomsSame⟩ :=
      Numeral.readCount?_toList_ofNat_eq_some_iff.mp atomsRead
    obtain ⟨clausesBounded, clausesSame⟩ :=
      Numeral.readCount?_toList_ofNat_eq_some_iff.mp clausesRead
    refine ⟨⟨atomsBounded, clausesBounded⟩, ?_⟩
    rw [← atomsSame, ← clausesSame]
  · rintro ⟨⟨atoms, clauses⟩, rfl⟩
    exact ⟨_, _, _, rfl, words_header atomCount clauseCount,
      Numeral.readCount?_toList_ofNat_eq_some_iff.mpr ⟨atoms, rfl⟩,
      Numeral.readCount?_toList_ofNat_eq_some_iff.mpr ⟨clauses, rfl⟩⟩

/-- The words of a clause's line are its numbers and the final `0`. -/
theorem words_clauseText (numbers : List Int) :
    words (clauseText numbers) =
      numbers.map (fun number => (Numeral.ofInt number).toList) ++ [['0']] := by
  induction numbers with
  | nil => rfl
  | cons first rest inductionHypothesis =>
      have separated : clauseText (first :: rest) =
          (Numeral.ofInt first).toList ++ ' ' :: clauseText rest := by
        simp [clauseText]
      rw [separated, Text.words_append_blank_cons _ _ (by decide),
        Text.words_eq_singleton (Numeral.blankFree_ofInt first)
          (Numeral.toList_ofInt_ne_nil first), inductionHypothesis]
      rfl

/-- A clause's line starts like a numeral. -/
theorem exists_clauseText_cons (numbers : List Int) :
    ∃ first rest, clauseText numbers = first :: rest ∧
      Numeral.isNumeralCharacter first = true := by
  cases numbers with
  | nil => exact ⟨'0', [], rfl, by decide⟩
  | cons number others =>
      obtain ⟨first, more, written, plain⟩ :=
        Numeral.exists_toList_ofInt_cons number
      exact ⟨first, more ++ ' ' :: clauseText others,
        by simp [clauseText, written], plain⟩

theorem trim_clauseText (numbers : List Int) :
    trim (clauseText numbers) = clauseText numbers := by
  obtain ⟨first, rest, written, plain⟩ := exists_clauseText_cons numbers
  have visible := Text.isBlank_eq_false_of_isSideCharacter
    (Numeral.isSideCharacter_of_isNumeralCharacter plain)
  refine Text.trim_eq_self [first] ['0'] ?_ ?_ (by simp) ⟨_, rfl⟩ (by decide)
    (by decide)
  · exact ⟨rest, written.symm⟩
  · simpa [BlankFree] using visible

theorem not_isComment_clauseText (numbers : List Int) :
    ¬IsComment (clauseText numbers) := by
  obtain ⟨first, rest, written, plain⟩ := exists_clauseText_cons numbers
  have notComment : first ≠ 'c' := Text.ne_of_class plain (by decide)
  simp [IsComment, written, notComment, notComment.symm]

theorem not_isHeader_clauseText (numbers : List Int) :
    ¬IsHeader (clauseText numbers) := by
  obtain ⟨first, rest, written, plain⟩ := exists_clauseText_cons numbers
  have notHeader : first ≠ 'p' := Text.ne_of_class plain (by decide)
  simp [IsHeader, written, notHeader.symm]

theorem isHeader_headerText (atomCount clauseCount : Nat) :
    IsHeader (headerText atomCount clauseCount) :=
  ⟨_, rfl⟩

/-- The comments are passed over. -/
theorem significant_writtenLines
    (numbered : NumberedClauses)
    (comment : String) :
    significant (writtenLines numbered comment) =
      headerText numbered.atomCount numbered.clauses.length ::
        numbered.clauses.map clauseText := by
  have header : ¬IsComment
      (headerText numbered.atomCount numbered.clauses.length) :=
    (isHeader_headerText _ _).not_isComment
  have clauses : significant (numbered.clauses.map clauseText) =
      numbered.clauses.map clauseText := by
    have trimmed : (numbered.clauses.map clauseText).map trim =
        numbered.clauses.map clauseText := by
      rw [List.map_map]
      exact List.map_congr_left fun numbers _ => trim_clauseText numbers
    rw [significant, trimmed, List.filter_eq_self]
    simp [not_isComment_clauseText]
  rw [writtenLines, List.cons_append,
    significant_comment (isComment_trim_cons (.inr ⟨_, rfl⟩)), List.cons_append,
    significant_comment (isComment_trim_cons (.inr ⟨_, rfl⟩)), List.cons_append,
    significant_comment (isComment_trim_cons (.inl rfl)), List.cons_append,
    List.nil_append, significant_cons (by rwa [trim_headerText]),
    trim_headerText, clauses]

theorem headerLines_writtenLines
    (numbered : NumberedClauses)
    (comment : String) :
    headerLines (writtenLines numbered comment) =
      [headerText numbered.atomCount numbered.clauses.length] := by
  simp [headerLines, significant_writtenLines, isHeader_headerText,
    not_isHeader_clauseText]

/-- The words of the clauses' lines are the numerals of their listing. -/
theorem literalWords_writtenLines
    (numbered : NumberedClauses)
    (comment : String) :
    literalWords (writtenLines numbered comment) =
      (listing numbered.clauses).map
        fun number => (Numeral.ofInt number).toList := by
  have zero : (Numeral.ofInt 0).toList = ['0'] := by decide
  have noHeaders : (numbered.clauses.map clauseText).filter (¬IsHeader ·) =
      numbered.clauses.map clauseText := by
    rw [List.filter_eq_self]
    simp [not_isHeader_clauseText]
  rw [literalWords, significant_writtenLines, List.filter_cons_of_neg
    (by simp [isHeader_headerText]), noHeaders]
  simp [listing, List.flatMap_map, List.map_flatMap, words_clauseText, zero]

end Dimacs

namespace NumberedClauses

open Dimacs

/-- The counts and the numbers of numbered clauses are machine integers. -/
structure Readable (numbered : NumberedClauses) : Prop where
  atoms : numbered.atomCount ≤ Word.greatestCount
  clauses : numbered.clauses.length ≤ Word.greatestCount
  numbers : ∀ clause ∈ numbered.clauses, ∀ number ∈ clause, Word.Fits number

/-- Numbered clauses over no more atoms than machine integers can number. -/
theorem InRange.readable
    {numbered : NumberedClauses}
    (inRange : numbered.InRange)
    (atomsBounded : numbered.atomCount ≤ Word.greatest)
    (clausesBounded : numbered.clauses.length ≤ Word.greatestCount) :
    numbered.Readable := by
  refine ⟨?_, clausesBounded, fun clause clauseMem number member => ?_⟩
  · rw [Word.greatest] at atomsBounded
    rw [Word.greatestCount]
    omega
  · exact Word.fits_of_natAbs_le (inRange clause clauseMem number member).2
      atomsBounded

/-- The counts and the numbers that are read are machine integers. -/
theorem readable_of_read
    {text : String}
    {numbered : NumberedClauses}
    (reads : read text = .ok numbered) :
    numbered.Readable := by
  obtain ⟨_, ⟨headers, announced, last⟩, listed, _⟩ :=
    read_eq_ok_iff_lists.mp reads
  obtain ⟨line, _, announces⟩ :=
    exists_related_of_mem_right announced (List.mem_of_getLast? last)
  obtain ⟨atoms, clauses⟩ := announces.bounded
  refine ⟨atoms, clauses, fun clause clauseMem number member => ?_⟩
  have inListing : number ∈ listing numbered.clauses :=
    List.mem_flatMap_of_mem clauseMem (List.mem_append_left _ member)
  obtain ⟨word, _, numeral⟩ := exists_related_of_mem_right listed inListing
  exact numeral.fits

/-- The text of numbered clauses is read back, whatever the comment is, if their
counts and numbers are machine integers, and else not at all. -/
theorem read_text_eq_ok_iff
    {numbered : NumberedClauses}
    (inRange : numbered.InRange)
    {comment : String}
    {result : NumberedClauses} :
    read (numbered.text comment) = .ok result ↔
      numbered.Readable ∧ result = numbered := by
  have unbroken : ∀ line ∈ writtenLines numbered comment, Text.Unbroken line :=
    fun line => unbroken_of_mem_writtenLines
  have numerals {values : List Int} :
      List.Forall₂ Written.IsNumeral
          (literalWords (writtenLines numbered comment)) values ↔
        (∀ number ∈ listing numbered.clauses, Word.Fits number) ∧
          values = listing numbered.clauses := by
    have denotes : ∀ number ∈ listing numbered.clauses, ∀ value,
        Written.IsNumeral (Numeral.ofInt number).toList value ↔
          Word.Fits number ∧ value = id number := by
      intro number _ value
      rw [← Numeral.readWord?_eq_some_iff_isNumeral,
        Numeral.readWord?_toList_ofInt_eq_some_iff, id]
    rw [literalWords_writtenLines, List.forall₂_map_left_iff,
      forall₂_iff_eq_map denotes, List.map_id]
  rw [read_eq_ok_iff_lists, toList_text, Text.lines_flatMap unbroken]
  constructor
  · rintro ⟨_, ⟨headers, announced, last⟩, listed, resultInRange⟩
    rw [headerLines_writtenLines, List.forall₂_cons_left_iff] at announced
    obtain ⟨header, _, announces, others, rfl⟩ := announced
    obtain rfl := List.forall₂_nil_left_iff.mp others
    obtain ⟨⟨atoms, clauses⟩, rfl⟩ := announces_headerText_iff.mp announces
    obtain ⟨fits, same⟩ := numerals.mp listed
    refine ⟨⟨atoms, clauses, fun clause clauseMem number member => ?_⟩, ?_⟩
    · exact fits number (List.mem_flatMap_of_mem clauseMem
        (List.mem_append_left _ member))
    · have sameClauses :=
        eq_of_listing_eq resultInRange.nonzero inRange.nonzero same
      have sameCount : numbered.atomCount = result.atomCount :=
        (Header.mk.inj (Option.some.inj last)).1
      cases result
      subst sameClauses sameCount
      rfl
  · rintro ⟨⟨atoms, clauses, numbers⟩, rfl⟩
    refine ⟨?_, ⟨[_], ?_, rfl⟩, ?_, inRange⟩
    · exact ⟨_, by rw [significant_writtenLines]; rfl, isHeader_headerText _ _⟩
    · rw [headerLines_writtenLines]
      exact .cons (announces_headerText_iff.mpr ⟨⟨atoms, clauses⟩, rfl⟩) .nil
    · refine numerals.mpr ⟨?_, rfl⟩
      simp only [listing, List.forall_mem_flatMap, List.forall_mem_append,
        List.forall_mem_singleton]
      exact fun clause clauseMem => ⟨numbers clause clauseMem, by decide⟩

/-- The text of numbered clauses is read back, whatever the comment is. -/
theorem read_text
    {numbered : NumberedClauses}
    (inRange : numbered.InRange)
    (atomsBounded : numbered.atomCount ≤ Word.greatest)
    (clausesBounded : numbered.clauses.length ≤ Word.greatestCount)
    (comment : String) :
    read (numbered.text comment) = .ok numbered :=
  (read_text_eq_ok_iff inRange).mpr
    ⟨inRange.readable atomsBounded clausesBounded, rfl⟩

end NumberedClauses

namespace Formula

/-! ## Adding numbered clauses -/

/-- A number names the literal whose atom has the place of the number's size in a
list of atoms, counted from one, and that has the number's sign. -/
def NumberNames (atoms : List Atom) (number : Int) (literal : Literal) : Prop :=
  ∃ position, number.natAbs = position + 1 ∧
    atoms[position]? = some literal.atom ∧
    literal.positive = decide (0 < number)

theorem literalOf_eq_ok_iff_numberNames
    {formula : Formula}
    {number : Int}
    {literal : Literal} :
    formula.literalOf number = .ok literal ↔
      NumberNames formula.atoms number literal :=
  literalOf_eq_ok_iff

theorem mem_atoms_of_numberNames
    {atoms : List Atom}
    {numbers : List Int}
    {clause : Clause}
    (named : List.Forall₂ (NumberNames atoms) numbers clause)
    {literal : Literal}
    (member : literal ∈ clause) :
    literal.atom ∈ atoms := by
  obtain ⟨_, _, _, _, found, _⟩ := exists_related_of_mem_right named member
  exact List.mem_of_getElem? found

/-- A clause is added when all its numbers name literals, as these literals. -/
theorem Indexed.addNumberedClause_eq_ok_iff
    {base next : Formula}
    (indexed : base.Indexed)
    {numbers : List Int} :
    base.addNumberedClause numbers = .ok next ↔
      ∃ clause, List.Forall₂ (NumberNames base.atoms) numbers clause ∧
        next = base.withClause clause := by
  simp only [addNumberedClause, Results.bind_eq_ok_iff, Results.mapM_eq_ok_iff,
    literalOf_eq_ok_iff_numberNames, indexed.addRegisteredClause_eq_ok_iff]
  exact exists_congr fun clause => and_congr_right fun named =>
    and_iff_right fun literal => mem_atoms_of_numberNames named

/-- Numbered clauses are added when all their numbers name literals. -/
theorem Indexed.foldlM_addNumberedClause_eq_ok_iff
    {base next : Formula}
    (indexed : base.Indexed)
    {clauses : List (List Int)} :
    clauses.foldlM addNumberedClause base = .ok next ↔
      ∃ named,
        List.Forall₂ (List.Forall₂ (NumberNames base.atoms)) clauses named ∧
          next = { base with clauses := base.clauses ++ named } := by
  induction clauses generalizing base with
  | nil => simp [pure, Except.pure, eq_comm]
  | cons numbers rest inductionHypothesis =>
      simp only [List.foldlM_cons, Results.bind_eq_ok_iff,
        indexed.addNumberedClause_eq_ok_iff, List.forall₂_cons_left_iff]
      constructor
      · rintro ⟨_, ⟨clause, first, rfl⟩, adds⟩
        obtain ⟨others, named, rfl⟩ :=
          (inductionHypothesis (indexed.withClause clause)).mp adds
        refine ⟨clause :: others, ⟨clause, others, first, named, rfl⟩, ?_⟩
        simp [Formula.withClause]
      · rintro ⟨_, ⟨clause, others, first, named, rfl⟩, rfl⟩
        refine ⟨_, ⟨clause, first, rfl⟩,
          (inductionHypothesis (indexed.withClause clause)).mpr
            ⟨others, named, ?_⟩⟩
        simp [Formula.withClause]

/-- The numbered clauses of a formula name its clauses. -/
theorem forall₂_numberNames_numbered
    {formula : Formula}
    (wellFormed : formula.WellFormed) :
    List.Forall₂ (List.Forall₂ (NumberNames formula.atoms))
      formula.numbered.clauses formula.clauses := by
  rw [numbered, List.forall₂_map_left_iff, List.forall₂_same]
  intro clause clauseMem
  rw [List.forall₂_map_left_iff, List.forall₂_same]
  intro literal member
  rw [← literalOf_eq_ok_iff_numberNames]
  exact literalOf_numberAt (wellFormed.registered clause clauseMem literal member)

/-- The DIMACS text of a formula and its atoms give back the formula, if its counts
and numbers are machine integers, and else they give nothing. -/
theorem WellFormed.ofDimacs_text_eq_ok_iff
    {formula : Formula}
    (wellFormed : formula.WellFormed)
    {comment : String}
    {result : Formula} :
    ofDimacs (formula.numbered.text comment) formula.atoms = .ok result ↔
      formula.numbered.Readable ∧ result = formula := by
  have indexed : Formula.Indexed { atoms := formula.atoms } :=
    ⟨wellFormed.nodup, rfl⟩
  have added : formula.numbered.clauses.foldlM addNumberedClause
      (ofAtoms formula.atoms) = .ok formula := by
    rw [ofAtoms_eq_of_nodup wellFormed.nodup,
      indexed.foldlM_addNumberedClause_eq_ok_iff]
    exact ⟨_, forall₂_numberNames_numbered wellFormed, wellFormed.eq_mk.symm⟩
  have sameCount : ¬formula.numbered.atomCount ≠ formula.atoms.length :=
    not_not.mpr rfl
  rw [ofDimacs, Results.bind_eq_ok_iff]
  constructor
  · rintro ⟨numbered, read, adds⟩
    obtain ⟨readable, rfl⟩ :=
      (NumberedClauses.read_text_eq_ok_iff wellFormed.inRange_numbered).mp read
    rw [if_neg sameCount] at adds
    exact ⟨readable, Except.ok.inj (adds.symm.trans added)⟩
  · rintro ⟨readable, rfl⟩
    refine ⟨_, (NumberedClauses.read_text_eq_ok_iff
      wellFormed.inRange_numbered).mpr ⟨readable, rfl⟩, ?_⟩
    rwa [if_neg sameCount]

/-- The DIMACS text of a formula and its atoms give back the formula. -/
theorem WellFormed.ofDimacs_text
    {formula : Formula}
    (wellFormed : formula.WellFormed)
    (atomsBounded : formula.atoms.length ≤ Word.greatest)
    (clausesBounded : formula.clauses.length ≤ Word.greatestCount)
    (comment : String) :
    ofDimacs (formula.numbered.text comment) formula.atoms = .ok formula := by
  have readable := wellFormed.inRange_numbered.readable atomsBounded
    (by simpa [numbered] using clausesBounded)
  exact wellFormed.ofDimacs_text_eq_ok_iff.mpr ⟨readable, rfl⟩

/-- A formula that is built is written, with any comment.  The text and the atoms
of the formula give back the formula, as long as its atoms and clauses can be
counted in machine integers, and they never give another one. -/
theorem ofDimacs_toDimacs
    {formula : Formula}
    (built : formula.Built)
    (comment : String) :
    ∃ text, formula.toDimacs comment = .ok text ∧
      (formula.atoms.length ≤ Word.greatest →
        formula.clauses.length ≤ Word.greatestCount →
        ofDimacs text formula.atoms = .ok formula) ∧
      ∀ result, ofDimacs text formula.atoms = .ok result → result = formula := by
  have wellFormed := built.wellFormed
  exact ⟨_, wellFormed.toDimacs_eq_ok comment,
    fun atomsBounded clausesBounded =>
      wellFormed.ofDimacs_text atomsBounded clausesBounded comment,
    fun _ reads => (wellFormed.ofDimacs_text_eq_ok_iff.mp reads).2⟩

/-- A tautology with a repeated literal, an empty clause, and a comment that looks
like a header and a clause. -/
theorem ofDimacs_toDimacs_hostile_comment :
    ∃ formula : Formula, formula.Built ∧
      formula =
        { atoms := [.selector 0 0, .order "x" (-1)]
          clauses :=
            [[⟨true, .order "x" (-1)⟩, ⟨false, .order "x" (-1)⟩,
              ⟨true, .order "x" (-1)⟩], [], [⟨false, .selector 0 0⟩]] } ∧
      ∃ text, formula.toDimacs "\r\np cnf 9 9\n1 -2 0\r " = .ok text ∧
        ofDimacs text formula.atoms = .ok formula := by
  let tautology : Clause :=
    [⟨true, .order "x" (-1)⟩, ⟨false, .order "x" (-1)⟩, ⟨true, .order "x" (-1)⟩]
  let registered : Formula := { atoms := [.selector 0 0] }
  let extended : Formula :=
    { atoms := [.selector 0 0, .order "x" (-1)], clauses := [tautology] }
  let formula : Formula :=
    { extended with clauses := [tautology, [], [⟨false, .selector 0 0⟩]] }
  have first : Grows {} registered := .register {} (.selector 0 0)
  have second : Grows registered extended := .addClause registered tautology
  have third : Grows extended (extended.addClause []) := .addClause extended []
  have adds : (extended.addClause []).addRegisteredClause
      [⟨false, .selector 0 0⟩] = .ok formula := by decide
  have fourth : Grows (extended.addClause []) formula :=
    .addRegisteredClause adds
  have built : formula.Built :=
    .tail (.tail (.tail (.single first) second) third) fourth
  obtain ⟨text, writes, reads, _⟩ :=
    ofDimacs_toDimacs built "\r\np cnf 9 9\n1 -2 0\r "
  exact ⟨formula, built, rfl, text, writes, reads (by decide) (by decide)⟩

end Formula
end OrderEncoding
