import OrderEncoding.Proofs.Problem.Layout
import OrderEncoding.Proofs.Problem.Printing
import OrderEncoding.Proofs.Problem.Reading

/-!
# Reading what was printed

The text of a problem that was read is read back as the same problem, unless an
inequality of it has the least machine integer as its bound.  In that case the
text is not read at all.
-/

namespace OrderEncoding

theorem Problem.WellFormed.properScope
    {problem : Problem}
    (wellFormed : problem.WellFormed) :
    ProperScope problem.vars :=
  ⟨wellFormed.names_nodup, fun x declared =>
    (wellFormed.vars x declared).identifier⟩

namespace Problem

open Written (BracketFree)

/-! ## Bodies of clauses -/

theorem trimQuotes_eq_self
    {text : List Char}
    (noQuotes : ∀ character ∈ text, isQuote character = false) :
    trimQuotes text = text := by
  have unchanged : ∀ {characters : List Char},
      (∀ character ∈ characters, isQuote character = false) →
      characters.dropWhile isQuote = characters := by
    intro characters free
    cases characters with
    | nil => rfl
    | cons first rest =>
        rw [List.dropWhile_cons_of_neg]
        rw [free first (.head _)]
        exact Bool.false_ne_true
  rw [trimQuotes, unchanged noQuotes, unchanged fun character member =>
    noQuotes character (List.mem_reverse.mp member), List.reverse_reverse]

/-- Literals with blanks between them are the literals of the body that they
make up. -/
theorem literals_intercalate
    {clause : List Written.Literal}
    (proper : ∀ literal ∈ clause, literal.Proper) :
    literals ([' '].intercalate (clause.map Written.Literal.text)) =
      clause.map Written.Literal.text := by
  have free : ∀ text ∈ clause.map Written.Literal.text, Text.BlankFree text :=
    List.forall_mem_map.mpr fun literal member =>
      (proper literal member).blankFree
  have nonempty : ∀ text ∈ clause.map Written.Literal.text, text ≠ [] :=
    List.forall_mem_map.mpr fun literal _ => literal.text_ne_nil
  have unquoted : (clause.map Written.Literal.text).map trimQuotes =
      clause.map Written.Literal.text := by
    rw [List.map_map]
    apply List.map_congr_left
    intro literal member
    apply trimQuotes_eq_self
    intro character inText
    have ofLiteral := (proper literal member).all_text character inText
    rw [isQuote, Bool.or_eq_false_iff, beq_eq_false_iff_ne, beq_eq_false_iff_ne]
    exact ⟨Text.ne_of_class ofLiteral (by decide),
      Text.ne_of_class ofLiteral (by decide)⟩
  rw [literals, Text.words_intercalate (by decide),
    Text.flatMap_words_eq_self free nonempty, unquoted, List.filter_eq_self]
  intro text member
  simpa using nonempty text member

/-- A clause is printed as the literals of its inequalities with blanks between
them. -/
theorem toList_clauseText
    {scope : List Variable}
    {clause : List Inequality}
    (wellFormed : ∀ inequality ∈ clause, inequality.WellFormed scope) :
    (clauseText clause).toList = [' '].intercalate
      ((clause.map Written.Literal.ofInequality).map Written.Literal.text) := by
  rw [clauseText, String.toList_intercalate, List.map_map, List.map_map]
  refine congrArg (List.intercalate [' ']) (List.map_congr_left ?_)
  intro inequality member
  exact (Written.Literal.text_ofInequality
    (wellFormed inequality member).form.nonzero).symm

theorem literals_clauseText
    {scope : List Variable}
    (properScope : ProperScope scope)
    {clause : List Inequality}
    (wellFormed : ∀ inequality ∈ clause, inequality.WellFormed scope) :
    literals (clauseText clause).toList =
      clause.map fun inequality => inequality.text.toList := by
  have proper : ∀ literal ∈ clause.map Written.Literal.ofInequality,
      literal.Proper :=
    List.forall_mem_map.mpr fun inequality member =>
      Written.Literal.proper_ofInequality properScope
        (wellFormed inequality member)
  rw [toList_clauseText wellFormed, literals_intercalate proper, List.map_map]
  apply List.map_congr_left
  intro inequality member
  exact Written.Literal.text_ofInequality
    (wellFormed inequality member).form.nonzero

/-- Single inequalities without repetitions are distributed into one clause. -/
theorem foldl_disjoin_singletons
    {clause : List Inequality}
    (before : List Inequality)
    (nodup : (before ++ clause).Nodup) :
    (clause.map fun inequality => [[inequality]]).foldl
        (fun sum form => some (ConjunctiveForm.disjoin sum form))
        (some [before]) =
      some [before ++ clause] := by
  induction clause generalizing before with
  | nil => simp
  | cons first rest inductionHypothesis =>
      rw [List.append_cons] at nodup ⊢
      have firstNodup := (List.nodup_append.mp nodup).1
      have disjoined : ConjunctiveForm.disjoin (some [before]) [[first]] =
          [before ++ [first]] := by
        simp [ConjunctiveForm.disjoin, eraseDups_eq_self firstNodup]
      rw [List.map_cons, List.foldl_cons, disjoined]
      exact inductionHypothesis _ nodup

theorem disjoinAll_singletons
    {clause : List Inequality}
    (nonempty : clause ≠ [])
    (nodup : clause.Nodup) :
    ConjunctiveForm.disjoinAll (clause.map fun inequality => [[inequality]]) =
      [clause] := by
  obtain ⟨first, rest, rfl⟩ := List.exists_cons_of_ne_nil nonempty
  rw [ConjunctiveForm.disjoinAll, List.map_cons, List.foldl_cons,
    ConjunctiveForm.disjoin, foldl_disjoin_singletons [first] nodup]
  rfl

/-- A well-formed clause is read back from its text if the bounds of its
inequalities are above the least machine integer, and else not at all. -/
theorem readClause_clauseText
    {scope : List Variable}
    (properScope : ProperScope scope)
    {clause : List Inequality}
    (wellFormed : WellFormedClause scope clause)
    {form : ConjunctiveForm} :
    readClause scope (clauseText clause).toList = .ok form ↔
      (∀ inequality ∈ clause, inequality.bound ≠ Word.least) ∧
        form = [clause] := by
  have reads : ∀ forms : List DisjunctiveForm, List.Forall₂
      (fun inequality form =>
        DisjunctiveForm.read scope inequality.text.toList = .ok form)
      clause forms ↔
        (∀ inequality ∈ clause, inequality.bound ≠ Word.least) ∧
          forms = clause.map fun inequality => [[inequality]] :=
    fun forms => forall₂_iff_eq_map fun inequality member form =>
      DisjunctiveForm.read_inequality_text properScope
        (wellFormed.inequalities inequality member)
  have conjunctive : (clause.map fun inequality => [[inequality]]).map
      DisjunctiveForm.toConjunctive =
        clause.map fun inequality => [[inequality]] := by
    rw [List.map_map]
    apply List.map_congr_left
    intro inequality _
    simp [DisjunctiveForm.toConjunctive,
      eraseDups_eq_self (List.nodup_singleton inequality)]
  have distributed := disjoinAll_singletons wellFormed.nonempty wellFormed.nodup
  rw [readClause_eq_ok_iff,
    literals_clauseText properScope wellFormed.inequalities]
  simp only [List.forall₂_map_left_iff, reads]
  constructor
  · rintro ⟨_, _, ⟨aboveLeast, rfl⟩, rfl⟩
    exact ⟨aboveLeast, by rw [conjunctive, distributed]⟩
  · rintro ⟨aboveLeast, rfl⟩
    refine ⟨by simpa using wellFormed.nonempty, _, ⟨aboveLeast, rfl⟩, ?_⟩
    rw [conjunctive, distributed]

/-- Well-formed clauses are read back from their texts if the bounds in them are
above the least machine integer, and else not at all. -/
theorem readClauses_clauseTexts
    {scope : List Variable}
    (properScope : ProperScope scope)
    {clauses : List (List Inequality)}
    (wellFormed : ∀ clause ∈ clauses, WellFormedClause scope clause)
    {index : Nat}
    {result : List (List Inequality)} :
    readClauses scope index
        (clauses.map fun clause => (clauseText clause).toList) = .ok result ↔
      (∀ clause ∈ clauses, ∀ inequality ∈ clause,
        inequality.bound ≠ Word.least) ∧ result = clauses := by
  have reads : ∀ forms : List ConjunctiveForm, List.Forall₂
      (fun clause form =>
        readClause scope (clauseText clause).toList = .ok form)
      clauses forms ↔
        (∀ clause ∈ clauses, ∀ inequality ∈ clause,
          inequality.bound ≠ Word.least) ∧
          forms = clauses.map fun clause => [clause] :=
    fun forms => forall₂_iff_eq_map fun clause member form =>
      readClause_clauseText properScope (wellFormed clause member)
  have flattened : (clauses.map fun clause => [clause]).flatten = clauses := by
    simp [List.flatten_eq_flatMap, List.flatMap_map]
  rw [readClauses_eq_ok_iff]
  simp only [List.forall₂_map_left_iff, reads]
  constructor
  · rintro ⟨_, ⟨aboveLeast, rfl⟩, rfl⟩
    exact ⟨aboveLeast, flattened⟩
  · rintro ⟨aboveLeast, rfl⟩
    exact ⟨_, ⟨aboveLeast, rfl⟩, flattened.symm⟩

/-! ## Declarations -/

theorem toList_declaration (x : Variable) :
    x.declaration.toList = [' '].intercalate
      [x.name.toList, (Numeral.ofInt x.lower).toList,
        (Numeral.ofInt x.upper).toList] := by
  simp [Variable.declaration]

/-- The declaration that is written for a variable. -/
def declarationOf (x : Variable) : Written.Declaration :=
  { name := x.name.toList
    lower := (Numeral.ofInt x.lower).toList
    upper := (Numeral.ofInt x.upper).toList }

theorem words_declaration
    {x : Variable}
    (wellFormed : x.WellFormed) :
    Text.words x.declaration.toList = (declarationOf x).words := by
  rw [toList_declaration, Text.words_intercalate (by decide)]
  refine Text.flatMap_words_eq_self ?_ ?_
  · simp only [List.forall_mem_cons]
    exact ⟨blankFree_of_isIdentifier wellFormed.identifier,
      Numeral.blankFree_ofInt _, Numeral.blankFree_ofInt _, by simp⟩
  · simp only [List.forall_mem_cons]
    refine ⟨?_, Numeral.toList_ofInt_ne_nil _, Numeral.toList_ofInt_ne_nil _,
      by simp⟩
    intro empty
    have identifier := wellFormed.identifier
    rw [empty] at identifier
    contradiction

theorem declares_declarationOf
    {x : Variable}
    (wellFormed : x.WellFormed) :
    (declarationOf x).Declares x := by
  obtain ⟨identifier, aboveLeast, belowGreatest⟩ := wellFormed
  have ordered := x.lower_le_upper
  have lowFits : Word.Fits x.lower :=
    ⟨Int.le_of_lt aboveLeast, Int.le_trans ordered belowGreatest⟩
  have highFits : Word.Fits x.upper :=
    ⟨Int.le_trans (Int.le_of_lt aboveLeast) ordered, belowGreatest⟩
  constructor
  case identifier => exact identifier
  case name => exact String.ofList_toList.symm
  case lower =>
    exact Numeral.readWord?_eq_some_iff_isNumeral.mp
      (Numeral.readWord?_toList_ofInt lowFits)
  case upper =>
    exact Numeral.readWord?_eq_some_iff_isNumeral.mp
      (Numeral.readWord?_toList_ofInt highFits)
  case aboveLeast => exact aboveLeast

theorem readDeclarations_words
    {vars : List Variable}
    (nodup : (vars.map Variable.name).Nodup)
    (wellFormed : ∀ x ∈ vars, x.WellFormed) :
    readDeclarations []
        (vars.flatMap fun x => Text.words x.declaration.toList) = .ok vars := by
  refine readDeclarations_eq_ok_iff.mpr
    ⟨vars.map declarationOf, ?_, ?_, nodup, fun _ _ => List.not_mem_nil⟩
  · rw [List.flatMap_map]
    exact List.flatMap_congr fun x member => words_declaration (wellFormed x member)
  · rw [List.forall₂_map_left_iff, List.forall₂_same]
    exact fun x member => declares_declarationOf (wellFormed x member)

theorem bracketFree_declaration
    {x : Variable}
    (wellFormed : x.WellFormed) :
    BracketFree x.declaration.toList := by
  have number : ∀ value : Int, BracketFree (Numeral.ofInt value).toList :=
    fun value => Written.bracketFree_of_class (by decide) (by decide)
      fun _ member => Numeral.isSideCharacter_of_mem_ofInt member
  rw [toList_declaration]
  apply Written.bracketFree_intercalate
  simp only [List.forall_mem_cons]
  refine ⟨?_, number _, number _, by simp⟩
  exact Written.bracketFree_of_class (by decide) (by decide)
    (List.all_eq_true.mp
      (all_isTermCharacter_of_isIdentifier wellFormed.identifier))

/-! ## Texts -/

theorem bracketFree_clauseText
    {scope : List Variable}
    (properScope : ProperScope scope)
    {clause : List Inequality}
    (wellFormed : ∀ inequality ∈ clause, inequality.WellFormed scope) :
    BracketFree (clauseText clause).toList := by
  rw [toList_clauseText wellFormed]
  refine Written.bracketFree_intercalate (List.forall_mem_map.mpr ?_)
  refine List.forall_mem_map.mpr fun inequality member => ?_
  exact Written.bracketFree_of_class (by decide) (by decide)
    (Written.Literal.proper_ofInequality properScope
      (wellFormed inequality member)).all_text

/-- The bodies of clauses are found in the text that they make up. -/
theorem exists_outline_of_bodies
    {bodies : List (List Char)}
    (free : ∀ body ∈ bodies, BracketFree body) :
    ∃ outside,
      outline ([' '].intercalate
        (bodies.map fun body => '[' :: (body ++ [']']))) =
          .ok { declarations := outside, bodies } ∧
      Text.words outside = [] := by
  have blankFree : BracketFree [' '] := by decide
  induction bodies with
  | nil => exact ⟨[], rfl, rfl⟩
  | cons body rest inductionHypothesis =>
      obtain ⟨bodyFree, restFree⟩ := List.forall_mem_cons.mp free
      obtain ⟨outside, restOutline, noWords⟩ := inductionHypothesis restFree
      cases rest with
      | nil =>
          refine ⟨[' ', ' '], ?_, rfl⟩
          rw [List.map_singleton, List.intercalate_singleton, outline,
            outlineFrom, outlineFrom_some_append bodyFree]
          rfl
      | cons second others =>
          rw [outline] at restOutline
          refine ⟨' ' :: ' ' :: ' ' :: outside, ?_, ?_⟩
          · have textEq : [' '].intercalate ((body :: second :: others).map
                fun body => '[' :: (body ++ [']'])) =
              '[' :: (body ++ ']' :: ([' '] ++ [' '].intercalate
                ((second :: others).map fun body => '[' :: (body ++ [']'])))) := by
              simp
            rw [textEq, outline, outlineFrom, outlineFrom_some_append bodyFree,
              outlineFrom_none_append blankFree, restOutline]
            rfl
          · rw [Text.words_blank_cons (by decide),
              Text.words_blank_cons (by decide),
              Text.words_blank_cons (by decide), noWords]

/-- Declarations and bodies are told apart in the text that they make up. -/
theorem exists_outline
    {declarations bodies : List (List Char)}
    (declarationsFree : ∀ declaration ∈ declarations, BracketFree declaration)
    (bodiesFree : ∀ body ∈ bodies, BracketFree body) :
    ∃ outside,
      outline ([' '].intercalate
        (declarations ++ bodies.map fun body => '[' :: (body ++ [']']))) =
          .ok { declarations := outside, bodies } ∧
      Text.words outside = declarations.flatMap Text.words := by
  have blankFree : BracketFree [' '] := by decide
  induction declarations with
  | nil => exact exists_outline_of_bodies bodiesFree
  | cons first rest inductionHypothesis =>
      obtain ⟨firstFree, restFree⟩ := List.forall_mem_cons.mp declarationsFree
      obtain ⟨outside, restOutline, restWords⟩ := inductionHypothesis restFree
      rw [outline] at restOutline
      cases others : rest ++ bodies.map fun body => '[' :: (body ++ [']']) with
      | nil =>
          obtain ⟨rfl, noBodies⟩ := List.append_eq_nil_iff.mp others
          obtain rfl := List.map_eq_nil_iff.mp noBodies
          refine ⟨first, ?_, by simp⟩
          have alone := outlineFrom_none_append firstFree []
          rw [List.append_nil] at alone
          simp [outline, alone, outlineFrom, Except.map]
      | cons second remaining =>
          rw [others] at restOutline
          refine ⟨first ++ ' ' :: outside, ?_, ?_⟩
          · rw [List.cons_append, others, List.intercalate_cons_cons, outline,
              List.append_assoc, outlineFrom_none_append firstFree,
              outlineFrom_none_append blankFree, restOutline]
            rfl
          · rw [Text.words_append_blank_cons _ _ (by decide), restWords,
              List.flatMap_cons]

/-- The text of a problem is its declarations and the bodies of its clauses in
brackets, with a blank between them. -/
theorem toList_text
    (problem : Problem) :
    problem.text.toList = [' '].intercalate
      (problem.vars.map (fun x => x.declaration.toList) ++
        (problem.clauses.map fun clause => (clauseText clause).toList).map
          fun body => '[' :: (body ++ [']'])) := by
  simp [Problem.text, String.toList_intercalate, Function.comp_def]

/-- What is read from the text of a well-formed problem: the problem itself if
the bounds in it are above the least machine integer, and else nothing. -/
theorem read_text_eq_ok_iff
    {problem : Problem}
    (wellFormed : problem.WellFormed)
    {result : Problem} :
    Problem.read problem.text = .ok result ↔
      (∀ clause ∈ problem.clauses, ∀ inequality ∈ clause,
        inequality.bound ≠ Word.least) ∧ result = problem := by
  have declarationsFree : ∀ declaration ∈
      problem.vars.map (fun x => x.declaration.toList),
      BracketFree declaration :=
    List.forall_mem_map.mpr fun x declared =>
      bracketFree_declaration (wellFormed.vars x declared)
  have bodiesFree : ∀ body ∈
      problem.clauses.map (fun clause => (clauseText clause).toList),
      BracketFree body :=
    List.forall_mem_map.mpr fun clause member =>
      bracketFree_clauseText wellFormed.properScope
        (wellFormed.clauses clause member).inequalities
  obtain ⟨outside, outlines, outsideWords⟩ :=
    exists_outline declarationsFree bodiesFree
  have declarations : readDeclarations [] (Text.words outside) =
      .ok problem.vars := by
    rw [outsideWords, List.flatMap_map]
    exact readDeclarations_words wellFormed.names_nodup wellFormed.vars
  have clauses : ∀ {result}, readClauses problem.vars 0
      (problem.clauses.map fun clause => (clauseText clause).toList) =
        .ok result ↔ _ :=
    readClauses_clauseTexts wellFormed.properScope wellFormed.clauses
  rw [read_eq_ok_iff, toList_text, outlines]
  constructor
  · rintro ⟨_, ⟨⟩, declarationsRead, clausesRead⟩
    have sameVars := Except.ok.inj (declarations.symm.trans declarationsRead)
    rw [← sameVars] at clausesRead
    obtain ⟨aboveLeast, sameClauses⟩ := clauses.mp clausesRead
    refine ⟨aboveLeast, ?_⟩
    obtain ⟨vars, resultClauses⟩ := result
    dsimp only at sameVars sameClauses
    rw [← sameVars, sameClauses]
  · rintro ⟨aboveLeast, rfl⟩
    exact ⟨_, rfl, declarations, clauses.mpr ⟨aboveLeast, rfl⟩⟩

/-- A problem that was read is read back from its text exactly when no bound in
it is the least machine integer, and its text is never read as another
problem. -/
theorem reads_back_iff
    {text : String}
    {problem : Problem}
    (accepted : Problem.read text = .ok problem) :
    (Problem.read problem.text = .ok problem ↔
      ∀ clause ∈ problem.clauses, ∀ inequality ∈ clause,
        inequality.bound ≠ Word.least) ∧
      ∀ other, Problem.read problem.text = .ok other → other = problem := by
  have wellFormed := wellFormed_of_read accepted
  constructor
  · rw [read_text_eq_ok_iff wellFormed]
    exact and_iff_left rfl
  · intro other reads
    exact ((read_text_eq_ok_iff wellFormed).mp reads).2

/-- A problem with a negated literal and a clause of two literals is read
back. -/
theorem reads_back_two_clauses :
    ∃ problem, Problem.read "x 0 2 y -1 1 [-(2x>=y+1) y<0] [x-x<=0]" =
        .ok problem ∧
      Problem.read problem.text = .ok problem := by
  let x : Variable := { name := "x", lower := 0, upper := 2 }
  let y : Variable := { name := "y", lower := -1, upper := 1 }
  let problem : Problem :=
    { vars := [x, y]
      clauses :=
        [[⟨{ monomials := [⟨x, 2⟩, ⟨y, -1⟩] }, 0, true⟩,
            ⟨.single ⟨y, 1⟩, -1, true⟩],
          [⟨{}, 0, true⟩]] }
  have accepted : Problem.read "x 0 2 y -1 1 [-(2x>=y+1) y<0] [x-x<=0]" =
      .ok problem := by decide +kernel
  refine ⟨problem, accepted, (reads_back_iff accepted).1.mpr ?_⟩
  decide

/-- A bound that moves to the least machine integer is printed as a number that
is not read again. -/
theorem not_reads_back_least_bound :
    ∃ problem, Problem.read "x 0 1 [x<=-9223372036854775807-1]" =
        .ok problem ∧
      ∀ other, Problem.read problem.text ≠ .ok other := by
  let x : Variable := { name := "x", lower := 0, upper := 1 }
  let problem : Problem :=
    { vars := [x]
      clauses := [[⟨.single ⟨x, 1⟩, Word.least, true⟩]] }
  have accepted : Problem.read "x 0 1 [x<=-9223372036854775807-1]" =
      .ok problem := by decide +kernel
  refine ⟨problem, accepted, ?_⟩
  intro other reads
  obtain ⟨aboveLeast, _⟩ :=
    (read_text_eq_ok_iff (wellFormed_of_read accepted)).mp reads
  exact aboveLeast _ (.head _) _ (.head _) rfl

end Problem
end OrderEncoding
