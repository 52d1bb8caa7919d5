import OrderEncoding.Proofs.Dimacs.Models
import OrderEncoding.Proofs.Pairings
import OrderEncoding.Proofs.Problem.Declarations
import OrderEncoding.Proofs.Text.Lines

/-!
# The format of DIMACS texts

The lines of a text that are neither blank nor comments start with a header.
All headers are well formed and the last one counts.  The words of the other
lines, read across the ends of the lines, are the numerals of the clauses, each
followed by zero.  The texts of this format are read, as the clauses that they
list, and no others.
-/

namespace OrderEncoding

namespace Dimacs

open Text (words trim)
open Written (IsNumeral)

/-! ## The format -/

/-- A trimmed line that is passed over. -/
def IsComment (line : List Char) : Prop :=
  line = [] ∨ line = ['c'] ∨ ['c', ' '] <+: line

instance (line : List Char) : Decidable (IsComment line) :=
  inferInstanceAs (Decidable (_ ∨ _ ∨ _))

/-- A trimmed line that is taken for a header. -/
def IsHeader (line : List Char) : Prop :=
  ['p', ' '] <+: line

instance (line : List Char) : Decidable (IsHeader line) :=
  inferInstanceAs (Decidable (_ <+: _))

/-- The lines, trimmed, that are not passed over. -/
def significant (lines : List (List Char)) : List (List Char) :=
  (lines.map trim).filter (¬IsComment ·)

/-- The headers among the lines. -/
def headerLines (lines : List (List Char)) : List (List Char) :=
  (significant lines).filter (IsHeader ·)

/-- The words of the lines that are no headers, in order. -/
def literalWords (lines : List (List Char)) : List (List Char) :=
  ((significant lines).filter (¬IsHeader ·)).flatMap words

/-- The first line that is not passed over is a header. -/
def StartsWithHeader (lines : List (List Char)) : Prop :=
  ∃ line ∈ (significant lines).head?, IsHeader line

instance (lines : List (List Char)) : Decidable (StartsWithHeader lines) :=
  inferInstanceAs (Decidable (∃ line ∈ _, _))

/-- A line is a well-formed header: after `p ` there are the word `cnf` and the
numerals of the counts, and nothing else. -/
def Announces (line : List Char) (header : Header) : Prop :=
  ∃ rest atoms clauses, line = 'p' :: ' ' :: rest ∧
    words rest = [['c', 'n', 'f'], atoms, clauses] ∧
    Numeral.IsCount atoms header.atomCount ∧
    Numeral.IsCount clauses header.clauseCount

theorem Announces.bounded
    {line : List Char}
    {header : Header}
    (announces : Announces line header) :
    header.atomCount ≤ Word.greatestCount ∧
      header.clauseCount ≤ Word.greatestCount := by
  obtain ⟨_, _, _, _, _, atoms, clauses⟩ := announces
  exact ⟨atoms.bounded, clauses.bounded⟩

/-- The numbers of clauses as a file lists them, each clause followed by zero. -/
def listing (clauses : List (List Int)) : List Int :=
  clauses.flatMap (· ++ [0])

/-- Lines list numbered clauses. -/
structure Lists (lines : List (List Char)) (numbered : NumberedClauses) : Prop where
  starts : StartsWithHeader lines
  /-- Every header is well formed, and the last one has the counts. -/
  announced : ∃ headers, List.Forall₂ Announces (headerLines lines) headers ∧
    headers.getLast? = some
      { atomCount := numbered.atomCount
        clauseCount := numbered.clauses.length }
  /-- The words are the numerals of the clauses' numbers, whatever lines they
  stand on. -/
  listed : List.Forall₂ IsNumeral (literalWords lines) (listing numbered.clauses)
  inRange : numbered.InRange

/-! ## The role of a line -/

theorem classify_of_isComment
    {line : List Char}
    (comment : IsComment line) :
    classify line = .comment := by
  rcases comment with rfl | rfl | ⟨rest, rfl⟩ <;> rfl

theorem classify_header (rest : List Char) :
    classify ('p' :: ' ' :: rest) = .header rest :=
  rfl

theorem classify_eq_literals
    {line : List Char}
    (noComment : ¬IsComment line)
    (noHeader : ¬IsHeader line) :
    classify line = .literals (words line) := by
  unfold classify
  split
  · exact absurd (.inl rfl) noComment
  · exact absurd (.inr (.inl rfl)) noComment
  · exact absurd (.inr (.inr ⟨_, rfl⟩)) noComment
  · exact absurd ⟨_, rfl⟩ noHeader
  · rfl

theorem IsHeader.not_isComment
    {line : List Char}
    (header : IsHeader line) :
    ¬IsComment line := by
  obtain ⟨rest, rfl⟩ := header
  simp [IsComment]

theorem significant_comment
    {line : List Char}
    (comment : IsComment (trim line))
    (rest : List (List Char)) :
    significant (line :: rest) = significant rest := by
  simp [significant, comment]

theorem significant_cons
    {line : List Char}
    (noComment : ¬IsComment (trim line))
    (rest : List (List Char)) :
    significant (line :: rest) = trim line :: significant rest := by
  simp [significant, noComment]

theorem startsWithHeader_cons_iff
    {line : List Char}
    (noComment : ¬IsComment (trim line))
    (rest : List (List Char)) :
    StartsWithHeader (line :: rest) ↔ IsHeader (trim line) := by
  simp [StartsWithHeader, significant_cons noComment]

theorem headerLines_cons
    {line : List Char}
    (noComment : ¬IsComment (trim line))
    (rest : List (List Char)) :
    headerLines (line :: rest) =
      if IsHeader (trim line) then trim line :: headerLines rest
      else headerLines rest := by
  simp [headerLines, significant_cons noComment, List.filter_cons]

theorem literalWords_cons
    {line : List Char}
    (noComment : ¬IsComment (trim line))
    (rest : List (List Char)) :
    literalWords (line :: rest) =
      if IsHeader (trim line) then literalWords rest
      else words (trim line) ++ literalWords rest := by
  by_cases header : IsHeader (trim line) <;>
    simp [literalWords, significant_cons noComment, header]

/-! ## Reading a line -/

theorem readHeaderCount_eq_ok_iff
    {word : List Char}
    {count : Nat} :
    readHeaderCount word = .ok count ↔ Numeral.IsCount word count := by
  rw [← Numeral.readCount?_eq_some_iff_isCount, readHeaderCount]
  cases Numeral.readCount? word with
  | none => simp
  | some count => simp

theorem readHeader_eq_ok_iff
    {rest : List Char}
    {header : Header} :
    readHeader rest = .ok header ↔ Announces ('p' :: ' ' :: rest) header := by
  constructor
  · intro reads
    unfold readHeader at reads
    split at reads
    next atoms clauses split =>
      simp only [Results.bind_eq_ok_iff, readHeaderCount_eq_ok_iff] at reads
      obtain ⟨atomCount, atomsCount, clauseCount, clausesCount, equal⟩ := reads
      obtain rfl := Except.ok.inj equal
      exact ⟨rest, atoms, clauses, rfl, split, atomsCount, clausesCount⟩
    next => contradiction
  · rintro ⟨_, atoms, clauses, equal, split, atomsCount, clausesCount⟩
    obtain rfl : rest = _ := by simpa using equal
    simp only [readHeader, split, Results.bind_eq_ok_iff,
      readHeaderCount_eq_ok_iff]
    exact ⟨_, atomsCount, _, clausesCount, rfl⟩

theorem readLiterals_eq_ok_iff
    {line : Nat}
    {progress next : Progress}
    {given : List (List Char)} :
    readLiterals line progress given = .ok next ↔
      ∃ values, List.Forall₂ IsNumeral given values ∧
        next = values.foldl Progress.push progress := by
  induction given generalizing progress with
  | nil => simp [readLiterals, eq_comm]
  | cons word rest inductionHypothesis =>
      simp only [readLiterals, List.forall₂_cons_left_iff,
        ← Numeral.readWord?_eq_some_iff_isNumeral]
      cases read : Numeral.readWord? word with
      | none => simp
      | some value =>
          simp only [inductionHypothesis]
          constructor
          · rintro ⟨values, numerals, taken⟩
            exact ⟨value :: values, ⟨value, values, rfl, numerals, rfl⟩, taken⟩
          · rintro ⟨_, ⟨first, values, equal, numerals, rfl⟩, taken⟩
            obtain rfl := Option.some.inj equal
            exact ⟨values, numerals, taken⟩

theorem readLine_comment
    (number : Nat)
    (progress : Progress)
    {line : List Char}
    (comment : IsComment (trim line)) :
    readLine number progress line = .ok progress := by
  rw [readLine, classify_of_isComment comment]

theorem readLine_header_eq_ok_iff
    {number : Nat}
    {progress next : Progress}
    {line : List Char}
    (isHeader : IsHeader (trim line)) :
    readLine number progress line = .ok next ↔
      ∃ header, Announces (trim line) header ∧
        next = { progress with header? := some header } := by
  obtain ⟨rest, same⟩ := isHeader
  rw [readLine, ← same, List.cons_append, List.singleton_append, classify_header]
  simp only [Results.bind_eq_ok_iff, Results.inContext_eq_ok_iff,
    readHeader_eq_ok_iff, Except.ok.injEq, eq_comm (b := next)]

theorem readLine_literals_eq_ok_iff
    {number : Nat}
    {progress next : Progress}
    {line : List Char}
    (noComment : ¬IsComment (trim line))
    (noHeader : ¬IsHeader (trim line)) :
    readLine number progress line = .ok next ↔
      progress.header? ≠ none ∧
        ∃ values, List.Forall₂ IsNumeral (words (trim line)) values ∧
          next = values.foldl Progress.push progress := by
  rw [readLine, classify_eq_literals noComment noHeader,
    ← @readLiterals_eq_ok_iff number]
  cases known : progress.header? <;> simp

/-! ## Reading the lines -/

theorem Progress.push_setHeader
    (progress : Progress)
    (header? : Option Header)
    (number : Int) :
    { progress with header? }.push number =
      { progress.push number with header? } := by
  simp only [push]
  split <;> rfl

theorem Progress.foldl_push_setHeader
    (progress : Progress)
    (header? : Option Header)
    (values : List Int) :
    values.foldl push { progress with header? } =
      { values.foldl push progress with header? } := by
  induction values generalizing progress with
  | nil => rfl
  | cons value rest inductionHypothesis =>
      rw [List.foldl_cons, push_setHeader, inductionHypothesis, List.foldl_cons]

@[simp] theorem Progress.header?_foldl_push
    (progress : Progress)
    (values : List Int) :
    (values.foldl push progress).header? = progress.header? :=
  (congrArg Progress.header?
    (foldl_push_setHeader progress progress.header? values) :)

/-- What has been read after more headers and numbers. -/
def Progress.after
    (progress : Progress)
    (headers : List Header)
    (values : List Int) :
    Progress :=
  { values.foldl push progress with
    header? := headers.getLast?.or progress.header? }

theorem Progress.after_header
    (progress : Progress)
    (header : Header)
    (headers : List Header)
    (values : List Int) :
    { progress with header? := some header }.after headers values =
      progress.after (header :: headers) values := by
  rw [after, after, foldl_push_setHeader, List.getLast?_cons, Option.some_or,
    Option.or_some]

theorem Progress.after_values
    (progress : Progress)
    (headers : List Header)
    (values others : List Int) :
    (values.foldl push progress).after headers others =
      progress.after headers (values ++ others) := by
  rw [after, after, List.foldl_append, header?_foldl_push]

/-- Lines are read when their headers are well formed, the words of the others
are numerals, and no header is missing before them. -/
theorem readLines_eq_ok_iff
    {number : Nat}
    {progress next : Progress}
    {lines : List (List Char)} :
    readLines number progress lines = .ok next ↔
      (progress.header? = none →
        significant lines = [] ∨ StartsWithHeader lines) ∧
      ∃ headers values, List.Forall₂ Announces (headerLines lines) headers ∧
        List.Forall₂ IsNumeral (literalWords lines) values ∧
        next = progress.after headers values := by
  -- The progress is general: a header or numbers change it for the lines after
  -- them, and `after_header` and `after_values` join them with what follows.
  induction lines generalizing number progress with
  | nil =>
      simp [readLines, significant, headerLines, literalWords, Progress.after,
        eq_comm]
  | cons line rest inductionHypothesis =>
      by_cases comment : IsComment (trim line)
      · simp only [readLines, readLine_comment number progress comment,
          headerLines, literalWords, StartsWithHeader,
          significant_comment comment]
        exact inductionHypothesis
      rw [readLines, Results.bind_eq_ok_iff, headerLines_cons comment,
        literalWords_cons comment, startsWithHeader_cons_iff comment]
      by_cases header : IsHeader (trim line)
      · simp only [if_pos header, readLine_header_eq_ok_iff header,
          inductionHypothesis]
        constructor
        · rintro ⟨_, ⟨first, announces, rfl⟩, _, headers, values, announced,
            listed, rfl⟩
          exact ⟨fun _ => .inr header, first :: headers, values,
            .cons announces announced, listed,
            progress.after_header first headers values⟩
        · rintro ⟨_, _, values, _ | ⟨announces, announced⟩, listed, rfl⟩
          exact ⟨_, ⟨_, announces, rfl⟩, nofun, _, values, announced, listed,
            (progress.after_header _ _ values).symm⟩
      · simp only [if_neg header, readLine_literals_eq_ok_iff comment header,
          inductionHypothesis]
        constructor
        · rintro ⟨_, ⟨known, firsts, numerals, rfl⟩, _, headers, values,
            announced, listed, rfl⟩
          exact ⟨fun unknown => absurd unknown known, headers, firsts ++ values,
            announced, List.rel_append numerals listed,
            progress.after_values headers firsts values⟩
        · rintro ⟨known, headers, _, announced, listed, rfl⟩
          obtain ⟨firsts, values, numerals, others, rfl⟩ :=
            forall₂_append_left_iff.mp listed
          have headed : progress.header? ≠ none := fun unknown => by
            simpa [significant_cons comment, header] using known unknown
          refine ⟨_, ⟨headed, firsts, numerals, rfl⟩, fun unknown => ?_, headers,
            values, announced, others,
            (progress.after_values headers firsts values).symm⟩
          rw [Progress.header?_foldl_push] at unknown
          exact absurd unknown headed

/-! ## The clauses that are read -/

/-- The numbers that have been taken up. -/
def Progress.taken (progress : Progress) : List Int :=
  listing progress.clauses ++ progress.current

/-- No number that has been taken up for a clause is zero. -/
def Progress.Nonzero (progress : Progress) : Prop :=
  (∀ clause ∈ progress.clauses, ∀ number ∈ clause, number ≠ 0) ∧
    ∀ number ∈ progress.current, number ≠ 0

theorem Progress.taken_push
    (progress : Progress)
    (number : Int) :
    (progress.push number).taken = progress.taken ++ [number] := by
  rw [push]
  split
  next zero => simp [taken, listing, zero]
  next => simp [taken]

theorem Progress.Nonzero.push
    {progress : Progress}
    (nonzero : progress.Nonzero)
    (number : Int) :
    (progress.push number).Nonzero := by
  rw [Progress.push]
  split
  next =>
    refine ⟨?_, nofun⟩
    rw [List.forall_mem_append, List.forall_mem_singleton]
    exact nonzero
  next literal =>
    refine ⟨nonzero.1, ?_⟩
    rw [List.forall_mem_append, List.forall_mem_singleton]
    exact ⟨nonzero.2, literal⟩

/-- The clauses and the open clause are the numbers that have been taken up, cut
after each zero. -/
theorem Progress.Nonzero.foldl_push
    {progress : Progress}
    (nonzero : progress.Nonzero)
    (values : List Int) :
    (values.foldl Progress.push progress).Nonzero ∧
      (values.foldl Progress.push progress).taken = progress.taken ++ values := by
  induction values generalizing progress with
  | nil => simpa using nonzero
  | cons value rest inductionHypothesis =>
      obtain ⟨kept, same⟩ := inductionHypothesis (nonzero.push value)
      refine ⟨kept, ?_⟩
      rw [List.foldl_cons, same, Progress.taken_push, List.append_assoc,
        List.singleton_append]

theorem Progress.foldl_push_literals
    (progress : Progress)
    {numbers : List Int}
    (nonzero : ∀ number ∈ numbers, number ≠ 0) :
    numbers.foldl push progress =
      { progress with current := progress.current ++ numbers } := by
  induction numbers generalizing progress with
  | nil => simp
  | cons number rest inductionHypothesis =>
      obtain ⟨firstNonzero, restNonzero⟩ := List.forall_mem_cons.mp nonzero
      rw [List.foldl_cons, push, if_neg firstNonzero,
        inductionHypothesis _ restNonzero, List.append_assoc,
        List.singleton_append]

theorem Progress.foldl_push_listing
    {progress : Progress}
    (between : progress.current = [])
    {clauses : List (List Int)}
    (nonzero : ∀ clause ∈ clauses, ∀ number ∈ clause, number ≠ 0) :
    (listing clauses).foldl push progress =
      { progress with clauses := progress.clauses ++ clauses } := by
  induction clauses generalizing progress with
  | nil => simp [listing]
  | cons clause rest inductionHypothesis =>
      obtain ⟨clauseNonzero, restNonzero⟩ := List.forall_mem_cons.mp nonzero
      have others := @inductionHypothesis
        { progress with clauses := progress.clauses ++ [clause] } between
        restNonzero
      rw [List.append_assoc, List.singleton_append] at others
      rw [← others, listing, List.flatMap_cons, List.append_assoc,
        List.foldl_append, foldl_push_literals progress clauseNonzero, between]
      simp [push, listing]

/-- Clauses without zeros are told by their listing. -/
theorem eq_of_listing_eq
    {clauses others : List (List Int)}
    (nonzero : ∀ clause ∈ clauses, ∀ number ∈ clause, number ≠ 0)
    (othersNonzero : ∀ clause ∈ others, ∀ number ∈ clause, number ≠ 0)
    (same : listing clauses = listing others) :
    clauses = others := by
  have read := @Progress.foldl_push_listing {} rfl _ nonzero
  rw [same, Progress.foldl_push_listing rfl othersNonzero] at read
  simpa using read.symm

theorem find?_larger_eq_none_iff
    {clauses : List (List Int)}
    {limit : Nat} :
    clauses.flatten.find? (fun number => limit < number.natAbs) = none ↔
      ∀ clause ∈ clauses, ∀ number ∈ clause, number.natAbs ≤ limit := by
  simp only [List.find?_eq_none, List.mem_flatten, decide_eq_true_iff,
    Nat.not_lt]
  exact ⟨fun all clause clauseMem number member =>
      all number ⟨clause, clauseMem, member⟩,
    fun all number ⟨clause, clauseMem, member⟩ =>
      all clause clauseMem number member⟩

/-- What has been read passes the checks when no clause is open, the counts are
those of the last header, and no number is larger than the number of atoms. -/
theorem Progress.finish_eq_ok_iff
    {progress : Progress}
    {numbered : NumberedClauses} :
    progress.finish = .ok numbered ↔
      progress.header? = some
        { atomCount := numbered.atomCount
          clauseCount := numbered.clauses.length } ∧
      progress.current = [] ∧ progress.clauses = numbered.clauses ∧
      ∀ clause ∈ numbered.clauses, ∀ number ∈ clause,
        number.natAbs ≤ numbered.atomCount := by
  obtain ⟨header?, clauses, current⟩ := progress
  cases header? with
  | none => simp [finish]
  | some header =>
      constructor
      · intro finished
        simp only [finish] at finished
        split at finished
        next => contradiction
        next between =>
        split at finished
        next => contradiction
        next counted =>
        split at finished
        next => contradiction
        next inRange =>
        obtain rfl := Except.ok.inj finished
        exact ⟨congrArg some (by rw [not_not.mp counted]), not_not.mp between,
          rfl, find?_larger_eq_none_iff.mp inRange⟩
      · rintro ⟨announced, rfl, rfl, inRange⟩
        obtain rfl := Option.some.inj announced
        simp only [finish, ne_eq, not_true_eq_false, if_false,
          find?_larger_eq_none_iff.mpr inRange]

end Dimacs

namespace NumberedClauses

open Dimacs

theorem InRange.nonzero
    {numbered : NumberedClauses}
    (inRange : numbered.InRange)
    (clause : List Int)
    (clauseMem : clause ∈ numbered.clauses)
    (number : Int)
    (member : number ∈ clause) :
    number ≠ 0 :=
  (inRange clause clauseMem number member).1

/-- A text is read as the clauses that its lines list. -/
theorem read_eq_ok_iff_lists
    {text : String}
    {numbered : NumberedClauses} :
    read text = .ok numbered ↔ Lists (Text.lines text.toList) numbered := by
  rw [read, Results.bind_eq_ok_iff]
  simp only [readLines_eq_ok_iff, Progress.finish_eq_ok_iff]
  constructor
  · rintro ⟨_, ⟨headed, headers, values, announced, listed, rfl⟩, counted,
      between, clauses, bounded⟩
    -- No clause is open, so the numbers that were taken up are a listing.
    have last : headers.getLast? = some
        { atomCount := numbered.atomCount
          clauseCount := numbered.clauses.length } := by
      simpa [Progress.after] using counted
    have empty : Progress.Nonzero {} := ⟨nofun, nofun⟩
    obtain ⟨nonzero, taken⟩ := empty.foldl_push values
    have closed : (values.foldl Progress.push {}).current = [] := between
    have cut : (values.foldl Progress.push {}).clauses = numbered.clauses :=
      clauses
    refine ⟨(headed trivial).resolve_left ?_, ⟨headers, announced, last⟩, ?_, ?_⟩
    · intro blank
      rw [headerLines, blank] at announced
      obtain rfl := List.forall₂_nil_left_iff.mp announced
      contradiction
    · rw [Progress.taken, closed, cut] at taken
      have same : listing numbered.clauses = values := by
        simpa [Progress.taken, listing] using taken
      exact same ▸ listed
    · intro clause clauseMem number member
      exact ⟨nonzero.1 clause (cut ▸ clauseMem) number member,
        bounded clause clauseMem number member⟩
  · rintro ⟨starts, ⟨headers, announced, last⟩, listed, inRange⟩
    refine ⟨_, ⟨fun _ => .inr starts, headers, _, announced, listed, rfl⟩, ?_⟩
    rw [Progress.after, last,
      @Progress.foldl_push_listing {} rfl _ inRange.nonzero]
    exact ⟨rfl, rfl, rfl, fun clause clauseMem number member =>
      (inRange clause clauseMem number member).2⟩

/-- Texts that differ in their comments and in the ends of their lines are read
alike. -/
theorem read_congr
    {text other : String}
    (headers : headerLines (Text.lines text.toList) =
      headerLines (Text.lines other.toList))
    (literals : literalWords (Text.lines text.toList) =
      literalWords (Text.lines other.toList))
    (starts : StartsWithHeader (Text.lines text.toList) ↔
      StartsWithHeader (Text.lines other.toList))
    (numbered : NumberedClauses) :
    read text = .ok numbered ↔ read other = .ok numbered := by
  rw [read_eq_ok_iff_lists, read_eq_ok_iff_lists]
  constructor
  · rintro ⟨first, announced, listed, inRange⟩
    exact ⟨starts.mp first, headers ▸ announced, literals ▸ listed, inRange⟩
  · rintro ⟨first, announced, listed, inRange⟩
    exact ⟨starts.mpr first, headers ▸ announced, literals ▸ listed, inRange⟩

/-- A text is read exactly when its lines list numbered clauses, and as these
clauses.  Only its headers, the words of its other lines and the place of the
first header matter, so the words may stand on any lines, and a comment may stand
anywhere. -/
theorem read_iff_format
    (text : String) :
    (∀ numbered, read text = .ok numbered ↔
      Lists (Text.lines text.toList) numbered) ∧
    (∀ other : String,
      headerLines (Text.lines text.toList) =
        headerLines (Text.lines other.toList) →
      literalWords (Text.lines text.toList) =
        literalWords (Text.lines other.toList) →
      (StartsWithHeader (Text.lines text.toList) ↔
        StartsWithHeader (Text.lines other.toList)) →
      ∀ numbered, read text = .ok numbered ↔ read other = .ok numbered) ∧
    ∀ before comment after,
      (∀ line ∈ before ++ comment :: after, Text.Unbroken line) →
      IsComment (Text.trim comment) →
      text = String.ofList ((before ++ after).flatMap (· ++ ['\n'])) →
      ∀ numbered, read text = .ok numbered ↔
        read (String.ofList ((before ++ comment :: after).flatMap (· ++ ['\n']))) =
          .ok numbered := by
  refine ⟨fun _ => read_eq_ok_iff_lists,
    fun _ headers literals starts => read_congr headers literals starts, ?_⟩
  rintro before comment after unbroken isComment rfl
  have shorter : ∀ line ∈ before ++ after, Text.Unbroken line := by
    simp only [List.forall_mem_append, List.forall_mem_cons] at unbroken ⊢
    exact ⟨unbroken.1, unbroken.2.2⟩
  have same : significant (before ++ after) =
      significant (before ++ comment :: after) := by
    simp [significant, isComment]
  refine read_congr ?_ ?_ ?_
  all_goals
    simp only [String.toList_ofList, Text.lines_flatMap unbroken,
      Text.lines_flatMap shorter, headerLines, literalWords, StartsWithHeader, same]

/-- The numbers of the clauses on other lines, with a comment that looks like a
header between them. -/
theorem read_iff_format_layouts :
    let text := "p cnf 3 2\n1 -2 0\n3 0\n"
    let numbered : NumberedClauses :=
      { atomCount := 3, clauses := [[1, -2], [3]] }
    Lists (Text.lines text.toList) numbered ∧
      read "c\r\np cnf 3 2\n1\nc p cnf 9 9\n  -2 0 3\n\n0" = .ok numbered := by
  intro text numbered
  have reads : read text = .ok numbered := by decide
  obtain ⟨lists_iff, sameWords, _⟩ := read_iff_format text
  refine ⟨(lists_iff numbered).mp reads, (sameWords _ ?_ ?_ ?_ numbered).mp reads⟩
  · decide
  · decide
  · decide

end NumberedClauses
end OrderEncoding
