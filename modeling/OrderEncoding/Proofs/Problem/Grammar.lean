import Mathlib.Data.List.TakeWhile
import OrderEncoding.Proofs.Pairings
import OrderEncoding.Proofs.Problem.Reading

/-!
# The grammar of problems

A text is read as a problem exactly when its brackets alternate, its words
outside of the brackets declare variables, and the bodies in its brackets are
clauses over these variables.  So nothing but these words and the literals of the
bodies matters: no blanks, no quotation marks around literals, and not where the
brackets stand among the words.
-/

namespace OrderEncoding

namespace Text

/-- Leading members of a class are dropped up to the first other character. -/
theorem dropWhile_append_eq
    {isMember : Char → Bool}
    {before rest : List Char}
    (members : ∀ character ∈ before, isMember character = true)
    (ends : ∀ character, rest.head? = some character →
      isMember character = false) :
    (before ++ rest).dropWhile isMember = rest := by
  rw [List.dropWhile_append_of_pos members]
  cases rest with
  | nil => rfl
  | cons first others =>
      exact List.dropWhile_cons_of_neg (Bool.eq_false_iff.mp (ends first rfl))

theorem eq_false_of_head?_dropWhile
    {isMember : Char → Bool}
    {text : List Char}
    {character : Char}
    (first : (text.dropWhile isMember).head? = some character) :
    isMember character = false := by
  have notMember := List.head?_dropWhile_not isMember text
  rwa [first] at notMember

end Text

namespace Written

/-! ## Bodies -/

/-- A word without the quotation marks at its two ends. -/
structure Unquoted (word literal : List Char) : Prop where
  quoted : ∃ before behind, before ++ (literal ++ behind) = word ∧
    (∀ character ∈ before, Problem.isQuote character = true) ∧
    ∀ character ∈ behind, Problem.isQuote character = true
  first : ∀ character, literal.head? = some character →
    Problem.isQuote character = false
  last : ∀ character, literal.getLast? = some character →
    Problem.isQuote character = false

theorem unquoted_trimQuotes (word : List Char) :
    Unquoted word (Problem.trimQuotes word) := by
  obtain ⟨behind, behindQuotes, parts⟩ : ∃ behind,
      (∀ character ∈ behind, Problem.isQuote character = true) ∧
      Problem.trimQuotes word ++ behind = word.dropWhile Problem.isQuote := by
    refine ⟨((word.dropWhile Problem.isQuote).reverse.takeWhile
      Problem.isQuote).reverse, fun character member =>
        List.mem_takeWhile_imp (List.mem_reverse.mp member), ?_⟩
    rw [Problem.trimQuotes, ← List.reverse_append,
      List.takeWhile_append_dropWhile, List.reverse_reverse]
  constructor
  case quoted =>
    refine ⟨word.takeWhile Problem.isQuote, behind, ?_,
      fun character => List.mem_takeWhile_imp, behindQuotes⟩
    rw [parts, List.takeWhile_append_dropWhile]
  case first =>
    intro character first
    have starts : (word.dropWhile Problem.isQuote).head? = some character := by
      rw [← parts, List.head?_append, first, Option.some_or]
    exact Text.eq_false_of_head?_dropWhile starts
  case last =>
    intro character last
    rw [Problem.trimQuotes, List.getLast?_reverse] at last
    exact Text.eq_false_of_head?_dropWhile last

/-- Taking off the quotation marks leaves the same of a word as reading it. -/
theorem unquoted_iff {word literal : List Char} :
    Unquoted word literal ↔ Problem.trimQuotes word = literal := by
  constructor
  · rintro ⟨⟨before, behind, rfl, beforeQuotes, behindQuotes⟩, first, last⟩
    cases literal with
    | nil =>
        -- A word of quotation marks alone can be divided anywhere.
        have none : (before ++ ([] ++ behind)).dropWhile Problem.isQuote = [] :=
          List.dropWhile_eq_nil_iff.mpr
            (List.forall_mem_append.mpr ⟨beforeQuotes, behindQuotes⟩)
        rw [Problem.trimQuotes, none]
        rfl
    | cons head rest =>
        have starts : ∀ character, (head :: rest ++ behind).head? = some character →
            Problem.isQuote character = false := first
        rw [Problem.trimQuotes, Text.dropWhile_append_eq beforeQuotes starts,
          List.reverse_append, Text.dropWhile_append_eq, List.reverse_reverse]
        · exact fun _ member => behindQuotes _ (List.mem_reverse.mp member)
        · rwa [List.head?_reverse]
  · rintro rfl
    exact unquoted_trimQuotes word

/-- The texts of the literals of a body: its words without quotation marks, as
far as something is left of them. -/
def LiteralTexts (body : List Char) (texts : List (List Char)) : Prop :=
  ∃ unquoted, List.Forall₂ Unquoted (Text.words body) unquoted ∧
    texts = unquoted.filter (· ≠ [])

theorem literalTexts_iff
    {body : List Char}
    {texts : List (List Char)} :
    LiteralTexts body texts ↔ Problem.literals body = texts := by
  have unquoted_iff_map : ∀ unquoted,
      List.Forall₂ Unquoted (Text.words body) unquoted ↔
        (Text.words body).map Problem.trimQuotes = unquoted :=
    fun unquoted => forall₂_iff_map_eq fun _ _ => unquoted_iff
  have sameFilter : (fun text : List Char => decide (text ≠ [])) =
      fun text => !text.isEmpty := by
    funext text
    cases text with
    | nil => rfl
    | cons first rest => rfl
  rw [LiteralTexts, Problem.literals, sameFilter]
  simp only [unquoted_iff_map, exists_eq_left']
  exact eq_comm

/-- The texts of literals give a conjunctive form over some variables: there is one
of them, all of them are read with these variables, and the disjunction of what is
read is distributed. -/
def GiveForm
    (scope : List Variable)
    (texts : List (List Char))
    (form : ConjunctiveForm) : Prop :=
  texts ≠ [] ∧ ∃ forms,
    List.Forall₂ (fun text form => DisjunctiveForm.read scope text = .ok form)
      texts forms ∧
    form = ConjunctiveForm.disjoinAll (forms.map DisjunctiveForm.toConjunctive)

/-- The texts of the literals of bodies give the clauses of their forms, in
order. -/
def GiveClauses
    (scope : List Variable)
    (texts : List (List (List Char)))
    (clauses : List (List Inequality)) : Prop :=
  ∃ forms, List.Forall₂ (GiveForm scope) texts forms ∧ clauses = forms.flatten

end Written

namespace Problem

open Written (Alternate GiveClauses Layout LiteralTexts)

theorem forall₂_literalTexts_iff
    {bodies : List (List Char)}
    {texts : List (List (List Char))} :
    List.Forall₂ LiteralTexts bodies texts ↔ bodies.map literals = texts :=
  forall₂_iff_map_eq fun _ _ => Written.literalTexts_iff

/-- Bodies give clauses by the texts of their literals only. -/
theorem readClauses_eq_ok_iff_giveClauses
    {scope : List Variable}
    {index : Nat}
    {bodies : List (List Char)}
    {texts : List (List (List Char))}
    (inBodies : List.Forall₂ LiteralTexts bodies texts)
    {clauses : List (List Inequality)} :
    readClauses scope index bodies = .ok clauses ↔
      GiveClauses scope texts clauses := by
  obtain rfl := forall₂_literalTexts_iff.mp inBodies
  rw [readClauses_eq_ok_iff, GiveClauses]
  refine exists_congr fun forms => and_congr_left fun _ => ?_
  rw [List.forall₂_map_left_iff]
  constructor
  · exact fun reads => reads.imp fun _ _ => readClause_eq_ok_iff.mp
  · exact fun gives => gives.imp fun _ _ => readClause_eq_ok_iff.mpr

/-- A text with a layout is read as the problem whose variables the layout declares
and whose clauses its bodies give. -/
theorem read_eq_ok_iff_of_layout
    {text : String}
    {layout : Layout}
    (proper : layout.Proper)
    (sameText : layout.text = text.toList)
    {texts : List (List (List Char))}
    (inBodies : List.Forall₂ LiteralTexts layout.bodies texts)
    {problem : Problem} :
    read text = .ok problem ↔
      layout.Declares problem.vars ∧
        GiveClauses problem.vars texts problem.clauses := by
  rw [read_eq_ok_iff, ← sameText, outline_text proper]
  simp only [Except.ok.injEq, exists_eq_left', readDeclarations_words_eq_ok_iff,
    readClauses_eq_ok_iff_giveClauses inBodies]

/-- A text that is no layout, or whose words declare nothing, is malformed. -/
theorem exists_malformed_of_undeclared
    {text : String}
    (undeclared : ¬∃ (layout : Layout) (vars : List Variable),
      layout.Proper ∧ layout.text = text.toList ∧ layout.Declares vars) :
    ∃ failure malformation, read text = .error failure ∧
      failure.cause = .malformed malformation := by
  cases outlines : outline text.toList with
  | error failure =>
      obtain ⟨malformation, malformed⟩ :=
        onlyMalformed_outlineFrom none text.toList failure outlines
      refine ⟨failure, malformation, ?_, malformed⟩
      rw [read, outlines]
      rfl
  | ok outline =>
      cases declares : readDeclarations [] (Text.words outline.declarations) with
      | error failure =>
          obtain ⟨malformation, malformed⟩ :=
            onlyMalformed_readDeclarations _ _ failure declares
          refine ⟨failure, malformation, ?_, malformed⟩
          simp only [read, outlines, declares, bind, Except.bind]
      | ok vars =>
          obtain ⟨layout, proper, sameText⟩ := exists_layout outlines
          rw [← sameText, outline_text proper, Except.ok.injEq] at outlines
          subst outlines
          exact absurd ⟨layout, vars, proper, sameText,
            readDeclarations_words_eq_ok_iff.mp declares⟩ undeclared

/-- A text is read as a problem exactly when it has a layout whose words declare the
variables and whose bodies give the clauses; it has a layout when its brackets
alternate.  It is malformed if it has no layout or its words declare nothing,
whatever its bodies are.  Texts with the same words outside of the brackets and the
same literals within them are read as the same problem, or neither is read. -/
theorem read_iff_written (text : String) :
    (∀ problem, read text = .ok problem ↔
      ∃ (layout : Layout) (texts : List (List (List Char))),
        layout.Proper ∧ layout.text = text.toList ∧
        List.Forall₂ LiteralTexts layout.bodies texts ∧
        layout.Declares problem.vars ∧
        GiveClauses problem.vars texts problem.clauses) ∧
    (Alternate text.toList ↔
      ∃ layout : Layout, layout.Proper ∧ layout.text = text.toList) ∧
    ((¬∃ (layout : Layout) (vars : List Variable), layout.Proper ∧
        layout.text = text.toList ∧ layout.Declares vars) →
      ∃ failure malformation, read text = .error failure ∧
        failure.cause = .malformed malformation) ∧
    ∀ (other : String) (layout otherLayout : Layout)
      (texts : List (List (List Char))),
      layout.Proper → layout.text = text.toList →
      otherLayout.Proper → otherLayout.text = other.toList →
      layout.words = otherLayout.words →
      List.Forall₂ LiteralTexts layout.bodies texts →
      List.Forall₂ LiteralTexts otherLayout.bodies texts →
      ∀ problem, read text = .ok problem ↔ read other = .ok problem := by
  refine ⟨fun problem => ⟨fun reads => ?_, ?_⟩,
    Written.alternate_iff_exists_layout, exists_malformed_of_undeclared, ?_⟩
  · obtain ⟨outline, outlines, _⟩ := read_eq_ok_iff.mp reads
    obtain ⟨layout, proper, sameText⟩ := exists_layout outlines
    have inBodies := forall₂_literalTexts_iff.mpr (Eq.refl (layout.bodies.map literals))
    exact ⟨layout, _, proper, sameText, inBodies,
      (read_eq_ok_iff_of_layout proper sameText inBodies).mp reads⟩
  · rintro ⟨layout, texts, proper, sameText, inBodies, written⟩
    exact (read_eq_ok_iff_of_layout proper sameText inBodies).mpr written
  · intro other layout otherLayout texts proper sameText otherProper otherSame
      sameWords inBodies inOther problem
    rw [read_eq_ok_iff_of_layout proper sameText inBodies,
      read_eq_ok_iff_of_layout otherProper otherSame inOther, Layout.Declares,
      Layout.Declares, sameWords]

/-- A clause may stand within a declaration, and its literals in quotation marks. -/
theorem read_iff_written_clause_within_declaration :
    ∃ problem, Problem.read "x 0 1 y -1 1 [x+y<=1 y=0]" = .ok problem ∧
      Problem.read "x['x+y<=1' \"\" \"y=0\"]0 1\ty -1 1" = .ok problem := by
  let layout : Layout :=
    { front := "x 0 1 y -1 1 ".toList
      sections := [{ body := "x+y<=1 y=0".toList, behind := [] }] }
  let otherLayout : Layout :=
    { front := "x".toList
      sections :=
        [{ body := "'x+y<=1' \"\" \"y=0\"".toList
           behind := "0 1\ty -1 1".toList }] }
  have sameReading := (read_iff_written "x 0 1 y -1 1 [x+y<=1 y=0]").2.2.2
    "x['x+y<=1' \"\" \"y=0\"]0 1\ty -1 1" layout otherLayout
    [["x+y<=1".toList, "y=0".toList]]
    ⟨by decide, by decide, by decide⟩ (by decide)
    ⟨by decide, by decide, by decide⟩ (by decide) (by decide +kernel)
    (forall₂_literalTexts_iff.mpr (by decide +kernel))
    (forall₂_literalTexts_iff.mpr (by decide +kernel))
  have accepted : (Problem.read "x 0 1 y -1 1 [x+y<=1 y=0]").toBool = true := by
    decide +kernel
  cases reads : Problem.read "x 0 1 y -1 1 [x+y<=1 y=0]" with
  | error failure =>
      rw [reads] at accepted
      contradiction
  | ok problem => exact ⟨problem, rfl, (sameReading problem).mp reads⟩

end Problem
end OrderEncoding
