import OrderEncoding.Proofs.Problem.Declarations
import OrderEncoding.Proofs.Results
import OrderEncoding.Solving.Verdict

/-!
# The format of answers

An answer is read line by line.  Most lines only continue it: blank lines and
comments, the words that announce a model, and numbers without a zero.  The first
line that does not continue the answer decides it.  Either it ends the model with
a zero, or it denies that there is a model, or the answer is refused.  When all
lines continue the answer, its end decides it.
-/

namespace OrderEncoding
namespace Verdict

open Text (trim words)
open Written (IsNumeral)

/-! ## Lines -/

/-- The first word of a line is a keyword. -/
def StartsWith (keyword : String) (line : List Char) : Prop :=
  (words line).head? = some keyword.toList

instance (keyword : String) (line : List Char) :
    Decidable (StartsWith keyword line) :=
  inferInstanceAs (Decidable (_ = _))

/-- A line that says nothing: it is blank, or a comment. -/
def Silent (line : List Char) : Prop :=
  words line = [] ∨ StartsWith "c" line

instance (line : List Char) : Decidable (Silent line) :=
  inferInstanceAs (Decidable (_ ∨ _))

/-- A line that says that there is a model. -/
def Announces (line : List Char) : Prop :=
  StartsWith "SAT" line ∨ StartsWith "SATISFIABLE" line ∨
    trim line = "s SATISFIABLE".toList

instance (line : List Char) : Decidable (Announces line) :=
  inferInstanceAs (Decidable (_ ∨ _ ∨ _))

/-- A line that says that there is no model. -/
def Denies (line : List Char) : Prop :=
  StartsWith "UNSAT" line ∨ StartsWith "UNSATISFIABLE" line ∨
    trim line = "s UNSATISFIABLE".toList

instance (line : List Char) : Decidable (Denies line) :=
  inferInstanceAs (Decidable (_ ∨ _ ∨ _))

/-- The words of a line without the mark that it may begin with. -/
def Gives (line : List Char) (given : List (List Char)) : Prop :=
  words line ≠ [] ∧ (words line = given ∨ words line = ['v'] :: given)

instance (line : List Char) (given : List (List Char)) :
    Decidable (Gives line given) :=
  inferInstanceAs (Decidable (_ ∧ _))

/-- Words are the numerals of some numbers, none of which is zero. -/
structure Lists (given : List (List Char)) (values : List Int) : Prop where
  numerals : List.Forall₂ IsNumeral given values
  nonzero : 0 ∉ values

/-- A line continues an answer with some numbers, and may announce a model. -/
inductive Continues (line : List Char) : List Int → Bool → Prop
  | silent
      (silent : Silent line) :
      Continues line [] false
  | announces
      (announces : Announces line) :
      Continues line [] true
  | gives
      {given : List (List Char)}
      {values : List Int}
      (gives : Gives line given)
      (lists : Lists given values) :
      Continues line values false

/-- A line ends a model with some numbers and a zero.  Whatever follows the zero
does not matter. -/
def Ends (line : List Char) (values : List Int) : Prop :=
  ∃ given zero extra, Gives line (given ++ zero :: extra) ∧
    Lists given values ∧ IsNumeral zero 0

/-! ## Answers -/

/-- Lines continue an answer with some numbers, and may announce a model, up to
the lines that are left. -/
inductive Passes :
    List (List Char) → List Int → Bool → List (List Char) → Prop
  | done
      (rest : List (List Char)) :
      Passes rest [] false rest
  | line
      {line : List Char}
      {lines rest : List (List Char)}
      {values others : List Int}
      {announced later : Bool}
      (continues : Continues line values announced)
      (passes : Passes lines others later rest) :
      Passes (line :: lines) (values ++ others) (announced || later) rest

/-- Lines give a model and end it with a zero. -/
def Terminated (lines : List (List Char)) (numbers : List Int) : Prop :=
  ∃ front back announced line rest,
    Passes lines front announced (line :: rest) ∧ Ends line back ∧
      numbers = front ++ back

/-- Lines announce a model, or give some of its numbers, and no zero ends it. -/
def CutOff (lines : List (List Char)) (numbers : List Int) : Prop :=
  ∃ announced, Passes lines numbers announced [] ∧
    (numbers ≠ [] ∨ announced = true)

/-- Lines say that there is no model before they end one. -/
def Denied (lines : List (List Char)) : Prop :=
  ∃ numbers announced line rest,
    Passes lines numbers announced (line :: rest) ∧ Denies line

/-! ## The role of a line -/

theorem StartsWith.exists_words_eq
    {keyword : String}
    {line : List Char}
    (starts : StartsWith keyword line) :
    ∃ rest, words line = keyword.toList :: rest :=
  List.head?_eq_some_iff.mp starts

theorem Silent.classify_trim
    {line : List Char}
    (silent : Silent line) :
    classify (trim line) = .comment := by
  rcases silent with blank | comment
  · rw [classify, Text.words_trim, blank]
    rfl
  · obtain ⟨rest, split⟩ := comment.exists_words_eq
    rw [classify, Text.words_trim, split]
    rfl

theorem Announces.classify_trim
    {line : List Char}
    (announces : Announces line) :
    classify (trim line) = .satisfiable := by
  rcases announces with short | long | marked
  · obtain ⟨rest, split⟩ := short.exists_words_eq
    rw [classify, Text.words_trim, split]
    rfl
  · obtain ⟨rest, split⟩ := long.exists_words_eq
    rw [classify, Text.words_trim, split]
    rfl
  · rw [marked]
    decide

theorem Denies.classify_trim
    {line : List Char}
    (denies : Denies line) :
    classify (trim line) = .unsatisfiable := by
  rcases denies with short | long | marked
  · obtain ⟨rest, split⟩ := short.exists_words_eq
    rw [classify, Text.words_trim, split]
    rfl
  · obtain ⟨rest, split⟩ := long.exists_words_eq
    rw [classify, Text.words_trim, split]
    rfl
  · rw [marked]
    decide

/-- The words that decide the role of a line are not numerals. -/
theorem ofList_ne_of_isNumeral
    {word : List Char}
    {value : Int}
    (numeral : IsNumeral word value)
    (keyword : String)
    (noNumeral : Numeral.readWord? keyword.toList = none) :
    String.ofList word ≠ keyword := by
  rintro rfl
  rw [String.toList_ofList,
    Numeral.readWord?_eq_some_iff_isNumeral.mpr numeral] at noNumeral
  contradiction

/-- A line of numbers is told by the numeral that it begins with, unless a mark
stands before it. -/
theorem Gives.classify_trim
    {line : List Char}
    {given : List (List Char)}
    (gives : Gives line given)
    (numeral : ∀ word, given.head? = some word → ∃ value, IsNumeral word value) :
    classify (trim line) = .numbers given := by
  obtain ⟨visible, bare | marked⟩ := gives
  · cases given with
    | nil => exact absurd bare visible
    | cons first rest =>
        obtain ⟨value, isNumeral⟩ := numeral first rfl
        have different := ofList_ne_of_isNumeral isNumeral
        rw [classify, Text.words_trim, bare]
        simp only [List.map_cons, different "c" (by decide),
          different "UNSAT" (by decide), different "UNSATISFIABLE" (by decide),
          different "SAT" (by decide), different "SATISFIABLE" (by decide),
          different "s" (by decide), different "INDET" (by decide),
          different "UNKNOWN" (by decide), different "v" (by decide), or_self,
          if_false]
  · rw [classify, Text.words_trim, marked]
    rfl

/-- What a line can be. -/
theorem classify_trim_cases (line : List Char) :
    Silent line ∨ Announces line ∨ Denies line ∨
      classify (trim line) = .undecided ∨
      ∃ given, Gives line given ∧ classify (trim line) = .numbers given := by
  cases split : words line with
  | nil => exact .inl (.inl split)
  | cons first rest =>
      have starts (keyword : String) (same : String.ofList first = keyword) :
          StartsWith keyword line := by
        rw [StartsWith, split, ← same, String.toList_ofList]
        rfl
      have trimmed (text : String) (same : String.ofList (trim line) = text) :
          trim line = text.toList := by
        rw [← same, String.toList_ofList]
      have visible : words line ≠ [] := by
        rw [split]
        exact List.cons_ne_nil first rest
      rw [classify, Text.words_trim, split]
      simp only [List.map_cons, List.tail_cons]
      split_ifs with comment denies announces status unsolvable solvable unknown
        marked
      · exact .inl (.inr (starts _ comment))
      · exact .inr (.inr (.inl (denies.imp (starts _) (.inl ∘ starts _))))
      · exact .inr (.inl (announces.imp (starts _) (.inl ∘ starts _)))
      · exact .inr (.inr (.inl (.inr (.inr (trimmed _ unsolvable)))))
      · exact .inr (.inl (.inr (.inr (trimmed _ solvable))))
      · exact .inr (.inr (.inr (.inl rfl)))
      · exact .inr (.inr (.inr (.inl rfl)))
      · have mark : first = ['v'] := String.ofList_injective marked
        refine .inr (.inr (.inr (.inr ⟨rest, ⟨visible, .inr ?_⟩, rfl⟩)))
        rw [split, mark]
      · exact .inr (.inr (.inr (.inr ⟨_, ⟨visible, .inl split⟩, rfl⟩)))

/-! ## The numbers of a line -/

/-- The numerals of numbers other than zero are passed. -/
theorem Lists.readNumbers_append
    {given : List (List Char)}
    {values : List Int}
    (lists : Lists given values)
    (before : List Int)
    (rest : List (List Char)) :
    readNumbers before (given ++ rest) = readNumbers (before ++ values) rest := by
  obtain ⟨numerals, nonzero⟩ := lists
  induction numerals generalizing before with
  | nil => rw [List.nil_append, List.append_nil]
  | @cons word value others values numeral numerals inductionHypothesis =>
      obtain ⟨valueNonzero, othersNonzero⟩ := not_or.mp (mt List.mem_cons.mpr nonzero)
      have reads := Numeral.readWord?_eq_some_iff_isNumeral.mpr numeral
      rw [List.cons_append, readNumbers, reads]
      simp only [if_neg (Ne.symm valueNonzero)]
      rw [inductionHypothesis _ othersNonzero, List.append_assoc,
        List.singleton_append]

/-- Words are numerals of numbers other than zero, up to their end, to the numeral
of a zero, or to a word that is no numeral. -/
theorem lists_or_stops (given : List (List Char)) :
    (∃ values, Lists given values) ∨
      (∃ front zero extra values, given = front ++ zero :: extra ∧
        Lists front values ∧ IsNumeral zero 0) ∨
      ∀ before, ∃ failure, readNumbers before given = .error failure := by
  induction given with
  | nil => exact .inl ⟨[], .nil, List.not_mem_nil⟩
  | cons word rest inductionHypothesis =>
      cases reads : Numeral.readWord? word with
      | none =>
          refine .inr (.inr fun before => 
            ⟨.malformed (.modelLiteral (String.ofList word)), ?_⟩)
          simp only [readNumbers, reads]
      | some value =>
          have numeral := Numeral.readWord?_eq_some_iff_isNumeral.mp reads
          by_cases zero : value = 0
          · subst zero
            exact .inr (.inl ⟨[], word, rest, [], rfl, ⟨.nil, List.not_mem_nil⟩,
              numeral⟩)
          have nonzero {values : List Int} (rest : 0 ∉ values) : 0 ∉ value :: values :=
            mt List.mem_cons.mp (not_or.mpr ⟨Ne.symm zero, rest⟩)
          rcases inductionHypothesis with ⟨values, lists⟩ |
            ⟨front, last, extra, values, rfl, lists, ends⟩ | fails
          · exact .inl ⟨value :: values, .cons numeral lists.numerals,
              nonzero lists.nonzero⟩
          · exact .inr (.inl ⟨word :: front, last, extra, value :: values, rfl,
              ⟨.cons numeral lists.numerals, nonzero lists.nonzero⟩, ends⟩)
          · refine .inr (.inr fun before => ?_)
            simp only [readNumbers, reads, if_neg zero]
            exact fails (before ++ [value])

/-- Numerals start with a numeral. -/
theorem Lists.isNumeral_head
    {given extra : List (List Char)}
    {values : List Int}
    (lists : Lists given values)
    (numeral : ∀ word, extra.head? = some word → ∃ value, IsNumeral word value)
    {word : List Char}
    (head : (given ++ extra).head? = some word) :
    ∃ value, IsNumeral word value := by
  obtain ⟨_ | ⟨first, _⟩, _⟩ := lists
  · exact numeral word head
  · obtain rfl := Option.some.inj head
    exact ⟨_, first⟩

/-! ## Reading a line -/

/-- The numbers of a line are read on from those before it. -/
theorem Gives.readLines_cons
    {line : List Char}
    {given extra : List (List Char)}
    {values : List Int}
    (gives : Gives line (given ++ extra))
    (lists : Lists given values)
    (numeral : ∀ word, extra.head? = some word → ∃ value, IsNumeral word value)
    (before : List Int)
    (satisfiable : Bool)
    (rest : List (List Char)) :
    readLines before satisfiable (line :: rest) =
      (readNumbers (before ++ values) extra).bind fun read =>
        if read.ended then .ok (.model read.numbers)
        else readLines read.numbers satisfiable rest := by
  have role := gives.classify_trim fun _ => lists.isNumeral_head numeral
  rw [readLines, role, ← lists.readNumbers_append]
  rfl

/-- A line that continues an answer is passed. -/
theorem Continues.readLines_cons
    {line : List Char}
    {values : List Int}
    {announced : Bool}
    (continues : Continues line values announced)
    (before : List Int)
    (satisfiable : Bool)
    (rest : List (List Char)) :
    readLines before satisfiable (line :: rest) =
      readLines (before ++ values) (satisfiable || announced) rest := by
  cases continues with
  | silent silent =>
      rw [readLines, silent.classify_trim, List.append_nil, Bool.or_false]
  | announces announces =>
      rw [readLines, announces.classify_trim, List.append_nil, Bool.or_true]
  | @gives given values gives lists =>
      rw [← List.append_nil given] at gives
      rw [gives.readLines_cons lists nofun, Bool.or_false]
      rfl

/-- A line that ends a model decides an answer. -/
theorem Ends.readLines_cons
    {line : List Char}
    {values : List Int}
    (ends : Ends line values)
    (before : List Int)
    (satisfiable : Bool)
    (rest : List (List Char)) :
    readLines before satisfiable (line :: rest) =
      .ok (.model (before ++ values)) := by
  obtain ⟨given, zero, extra, gives, lists, isZero⟩ := ends
  have numeral (word : List Char) (head : (zero :: extra).head? = some word) :
      ∃ value, IsNumeral word value :=
    ⟨0, Option.some.inj head ▸ isZero⟩
  have readsZero := Numeral.readWord?_eq_some_iff_isNumeral.mpr isZero
  rw [gives.readLines_cons lists numeral]
  simp only [readNumbers, readsZero]
  rfl

/-- A line that denies a model decides an answer. -/
theorem Denies.readLines_cons
    {line : List Char}
    (denies : Denies line)
    (before : List Int)
    (satisfiable : Bool)
    (rest : List (List Char)) :
    readLines before satisfiable (line :: rest) = .ok .unsatisfiable := by
  rw [readLines, denies.classify_trim]

/-- A line continues an answer, decides it, or makes it unreadable. -/
theorem continues_or_stops (line : List Char) :
    (∃ values announced, Continues line values announced) ∨
      (∃ values, Ends line values) ∨ Denies line ∨
      ∀ before satisfiable rest, ∃ failure,
        readLines before satisfiable (line :: rest) = .error failure := by
  rcases classify_trim_cases line with
    silent | announces | denies | undecided | ⟨given, gives, numbers⟩
  · exact .inl ⟨_, _, .silent silent⟩
  · exact .inl ⟨_, _, .announces announces⟩
  · exact .inr (.inr (.inl denies))
  · refine .inr (.inr (.inr fun before satisfiable rest =>
      ⟨.malformed (.noVerdict (String.ofList (trim line))), ?_⟩))
    rw [readLines, undecided]
  · rcases lists_or_stops given with ⟨values, lists⟩ |
      ⟨front, zero, extra, values, rfl, lists, isZero⟩ | fails
    · exact .inl ⟨_, _, .gives gives lists⟩
    · exact .inr (.inl ⟨values, front, zero, extra, gives, lists, isZero⟩)
    · refine .inr (.inr (.inr fun before satisfiable rest => ?_))
      obtain ⟨failure, reads⟩ := fails before
      refine ⟨failure, ?_⟩
      rw [readLines, numbers]
      simp only [reads]
      rfl

/-! ## Reading lines -/

/-- Lines that continue an answer are passed. -/
theorem Passes.readLines_eq
    {lines rest : List (List Char)}
    {values : List Int}
    {announced : Bool}
    (passes : Passes lines values announced rest)
    (before : List Int)
    (satisfiable : Bool) :
    readLines before satisfiable lines =
      readLines (before ++ values) (satisfiable || announced) rest := by
  -- The numbers before are general: every line adds its own to them.
  induction passes generalizing before satisfiable with
  | done rest => rw [List.append_nil, Bool.or_false]
  | line continues passes inductionHypothesis =>
      rw [continues.readLines_cons, inductionHypothesis, List.append_assoc,
        Bool.or_assoc]

/-- Lines that are left may be followed by more. -/
theorem Passes.append_lines
    {lines rest : List (List Char)}
    {values : List Int}
    {announced : Bool}
    (passes : Passes lines values announced rest)
    (more : List (List Char)) :
    Passes (lines ++ more) values announced (rest ++ more) := by
  induction passes with
  | done rest => exact .done (rest ++ more)
  | line continues passes inductionHypothesis =>
      exact .line continues inductionHypothesis

/-- Lines that say nothing are passed. -/
theorem passes_of_silent
    {before : List (List Char)}
    (silent : ∀ line ∈ before, Silent line)
    (rest : List (List Char)) :
    Passes (before ++ rest) [] false rest := by
  induction before with
  | nil => exact .done rest
  | cons line others inductionHypothesis =>
      obtain ⟨lineSilent, othersSilent⟩ := List.forall_mem_cons.mp silent
      exact .line (.silent lineSilent) (inductionHypothesis othersSilent)

theorem Terminated.readLines_eq
    {lines : List (List Char)}
    {numbers : List Int}
    (terminated : Terminated lines numbers) :
    readLines [] false lines = .ok (.model numbers) := by
  obtain ⟨front, back, announced, line, rest, passes, ends, rfl⟩ := terminated
  rw [passes.readLines_eq, ends.readLines_cons, List.nil_append]

theorem Denied.readLines_eq
    {lines : List (List Char)}
    (denied : Denied lines) :
    readLines [] false lines = .ok .unsatisfiable := by
  obtain ⟨numbers, announced, line, rest, passes, denies⟩ := denied
  rw [passes.readLines_eq, denies.readLines_cons]

theorem Terminated.cons
    {line : List Char}
    {lines : List (List Char)}
    {values numbers : List Int}
    {announced : Bool}
    (continues : Continues line values announced)
    (terminated : Terminated lines numbers) :
    Terminated (line :: lines) (values ++ numbers) := by
  obtain ⟨front, back, later, last, rest, passes, ends, rfl⟩ := terminated
  exact ⟨values ++ front, back, announced || later, last, rest,
    .line continues passes, ends, (List.append_assoc values front back).symm⟩

theorem Denied.cons
    {line : List Char}
    {lines : List (List Char)}
    {values : List Int}
    {announced : Bool}
    (continues : Continues line values announced)
    (denied : Denied lines) :
    Denied (line :: lines) := by
  obtain ⟨numbers, later, last, rest, passes, denies⟩ := denied
  exact ⟨values ++ numbers, announced || later, last, rest,
    .line continues passes, denies⟩

/-- Lines that are all passed and told nothing are taken for a denial. -/
theorem Passes.readLines_nil
    {lines : List (List Char)}
    (passes : Passes lines [] false []) :
    readLines [] false lines = .ok .unsatisfiable :=
  passes.readLines_eq [] false

theorem CutOff.readLines_eq
    {lines : List (List Char)}
    {numbers : List Int}
    (cutOff : CutOff lines numbers) :
    readLines [] false lines = .ok (.model numbers) := by
  obtain ⟨announced, passes, told⟩ := cutOff
  rw [passes.readLines_eq, List.nil_append, Bool.false_or, readLines]
  rcases told with some | rfl
  · rw [List.isEmpty_eq_false_iff.mpr some]
    rfl
  · rw [Bool.not_true, Bool.and_false]
    rfl

/-- Lines that are all passed told nothing, or they are cut off. -/
theorem Passes.nothing_or_cutOff
    {lines : List (List Char)}
    {numbers : List Int}
    {announced : Bool}
    (passes : Passes lines numbers announced []) :
    (numbers = [] ∧ announced = false) ∨ CutOff lines numbers := by
  cases announced with
  | true => exact .inr ⟨true, passes, .inr rfl⟩
  | false =>
      by_cases empty : numbers = []
      · exact .inl ⟨empty, rfl⟩
      · exact .inr ⟨false, passes, .inl empty⟩

/-- Lines are all passed, or one of them decides the answer or makes it
unreadable. -/
theorem passes_or_stops (lines : List (List Char)) :
    (∃ numbers announced, Passes lines numbers announced []) ∨
      (∃ numbers, Terminated lines numbers) ∨ Denied lines ∨
      ∀ before satisfiable, ∃ failure,
        readLines before satisfiable lines = .error failure := by
  induction lines with
  | nil => exact .inl ⟨[], false, .done []⟩
  | cons line rest inductionHypothesis =>
      rcases continues_or_stops line with
        ⟨values, announced, continues⟩ | ⟨values, ends⟩ | denies | fails
      · rcases inductionHypothesis with
          ⟨numbers, later, passes⟩ | ⟨numbers, terminated⟩ | denied | fails
        · exact .inl ⟨_, _, .line continues passes⟩
        · exact .inr (.inl ⟨_, terminated.cons continues⟩)
        · exact .inr (.inr (.inl (denied.cons continues)))
        · refine .inr (.inr (.inr fun before satisfiable => ?_))
          rw [continues.readLines_cons]
          exact fails _ _
      · exact .inr (.inl ⟨values, [], values, false, line, rest, .done _, ends, rfl⟩)
      · exact .inr (.inr (.inl ⟨[], false, line, rest, .done _, denies⟩))
      · exact .inr (.inr (.inr fun before satisfiable =>
          fails before satisfiable rest))

/-- What the lines of an answer can be. -/
theorem answer_cases (lines : List (List Char)) :
    Passes lines [] false [] ∨ (∃ numbers, CutOff lines numbers) ∨
      (∃ numbers, Terminated lines numbers) ∨ Denied lines ∨
      ∃ failure, readLines [] false lines = .error failure := by
  rcases passes_or_stops lines with
    ⟨numbers, announced, passes⟩ | terminated | denied | fails
  · rcases passes.nothing_or_cutOff with ⟨rfl, rfl⟩ | cutOff
    · exact .inl passes
    · exact .inr (.inl ⟨numbers, cutOff⟩)
  · exact .inr (.inr (.inl terminated))
  · exact .inr (.inr (.inr (.inl denied)))
  · exact .inr (.inr (.inr (.inr (fails [] false))))

/-! ## Reading an answer -/

/-- A model is read from an answer that gives it, whether or not a zero ends it. -/
theorem read_eq_model_iff
    {text : String}
    {numbers : List Int} :
    read text = .ok (.model numbers) ↔
      Terminated (Text.lines text.toList) numbers ∨
        CutOff (Text.lines text.toList) numbers := by
  constructor
  · intro reads
    rw [read] at reads
    rcases answer_cases (Text.lines text.toList) with
      nothing | ⟨others, cutOff⟩ | ⟨others, terminated⟩ | denied | ⟨failure, fails⟩
    · cases nothing.readLines_nil.symm.trans reads
    · cases cutOff.readLines_eq.symm.trans reads
      exact .inr cutOff
    · cases terminated.readLines_eq.symm.trans reads
      exact .inl terminated
    · cases denied.readLines_eq.symm.trans reads
    · cases fails.symm.trans reads
  · rintro (terminated | cutOff)
    · exact terminated.readLines_eq
    · exact cutOff.readLines_eq

/-- An answer says that there is no model when a line denies it, or when the
answer says nothing at all. -/
theorem read_eq_unsatisfiable_iff {text : String} :
    read text = .ok .unsatisfiable ↔
      Denied (Text.lines text.toList) ∨
        Passes (Text.lines text.toList) [] false [] := by
  constructor
  · intro reads
    rw [read] at reads
    rcases answer_cases (Text.lines text.toList) with
      nothing | ⟨numbers, cutOff⟩ | ⟨numbers, terminated⟩ | denied | ⟨failure, fails⟩
    · exact .inr nothing
    · cases cutOff.readLines_eq.symm.trans reads
    · cases terminated.readLines_eq.symm.trans reads
    · exact .inl denied
    · cases fails.symm.trans reads
  · rintro (denied | nothing)
    · exact denied.readLines_eq
    · exact nothing.readLines_nil

/-- A zero ends a model, or none does. -/
theorem Terminated.not_cutOff
    {lines : List (List Char)}
    {numbers others : List Int}
    (terminated : Terminated lines numbers) :
    ¬CutOff lines others := by
  -- A line that denies the model matters after a cut-off answer only.
  rintro ⟨announced, passes, _⟩
  have denies : Denies "UNSAT".toList := .inl rfl
  have continued : Terminated (lines ++ ["UNSAT".toList]) numbers := by
    obtain ⟨front, back, later, line, rest, more, ends, same⟩ := terminated
    exact ⟨front, back, later, line, _, more.append_lines _, ends, same⟩
  have denied : Denied (lines ++ ["UNSAT".toList]) :=
    ⟨others, announced, _, [], passes.append_lines _, denies⟩
  cases continued.readLines_eq.symm.trans denied.readLines_eq

/-- A model is read however it is laid out: whatever blank lines, comments and
announcements stand before its numbers and among them, wherever its lines break and
however they are marked, and whatever follows the zero.  A denial is read when only
blank lines and comments are before it. -/
theorem read_of_any_layout (text : String) :
    (∀ numbers, Terminated (Text.lines text.toList) numbers →
      read text = .ok (.model numbers)) ∧
    ∀ before line rest, Text.lines text.toList = before ++ line :: rest →
      (∀ other ∈ before, Silent other) → Denies line →
      read text = .ok .unsatisfiable := by
  refine ⟨fun numbers terminated => read_eq_model_iff.mpr (.inl terminated), ?_⟩
  intro before line rest split silent denies
  rw [read_eq_unsatisfiable_iff, split]
  exact .inl ⟨[], false, line, rest, passes_of_silent silent _, denies⟩

/-- A model on three lines, with a comment, a blank line and an announcement before
it, a comment and a lone mark among its numbers, and a denial after its zero.  The
denial alone is believed. -/
theorem read_of_any_layout_scattered :
    read "c found\n \n s SATISFIABLE\r\nv 1 -2\nc more\n\tv\n+3 00 x\nUNSAT" =
        .ok (.model [1, -2, 3]) ∧
      read "c sought\n \nUNSAT 3\n1 0\n" = .ok .unsatisfiable := by
  have numeral {word : List Char} {value : Int}
      (reads : Numeral.readWord? word = some value) : IsNumeral word value :=
    Numeral.readWord?_eq_some_iff_isNumeral.mp reads
  constructor
  · have gives : Continues "v 1 -2".toList [1, -2] false :=
      .gives (by decide : Gives _ ["1".toList, "-2".toList])
        ⟨.cons (numeral rfl) (.cons (numeral rfl) .nil), by decide⟩
    have marks : Continues "\tv".toList [] false :=
      .gives (by decide : Gives _ []) ⟨.nil, by decide⟩
    have ends : Ends "+3 00 x".toList [3] :=
      ⟨["+3".toList], "00".toList, ["x".toList], by decide,
        ⟨.cons (numeral rfl) .nil, by decide⟩, numeral rfl⟩
    have passes :=
      Passes.line (.silent (by decide : Silent "c found".toList)) <|
      .line (.silent (by decide : Silent " ".toList)) <|
      .line (.announces (by decide : Announces " s SATISFIABLE".toList)) <|
      .line gives <|
      .line (.silent (by decide : Silent "c more".toList)) <|
      .line marks <|
      .done ["+3 00 x".toList, "UNSAT".toList]
    refine (read_of_any_layout _).1 _ ?_
    exact ⟨_, _, _, _, _, passes, ends, rfl⟩
  · exact (read_of_any_layout _).2 ["c sought".toList, " ".toList]
      "UNSAT 3".toList ["1 0".toList] (by decide) (by decide) (by decide)

end Verdict
end OrderEncoding
