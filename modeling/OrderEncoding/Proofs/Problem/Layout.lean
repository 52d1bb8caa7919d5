import OrderEncoding.Problem.Reader
import OrderEncoding.Proofs.Results
import OrderEncoding.Proofs.Text.Characters
import OrderEncoding.Proofs.Text.Separators

/-!
# Layouts

How brackets divide the text of a problem.  A layout is a text without brackets
that is followed by any number of sections, each of which is a body in brackets
and the text behind it.  The texts of layouts are exactly the texts that have an
outline, and these are the texts whose brackets alternate.
-/

namespace OrderEncoding
namespace Written

/-- A text has no brackets. -/
def BracketFree (text : List Char) : Prop :=
  ∀ character ∈ text, character ≠ '[' ∧ character ≠ ']'

instance (text : List Char) : Decidable (BracketFree text) :=
  decidable_of_iff
    (text.all (fun character => character != '[' && character != ']') = true)
    (by simp [BracketFree])

/-- No class of characters without brackets makes up a text with them. -/
theorem bracketFree_of_class
    {isMember : Char → Bool}
    (noOpening : isMember '[' = false)
    (noClosing : isMember ']' = false)
    {text : List Char}
    (members : ∀ character ∈ text, isMember character = true) :
    BracketFree text :=
  fun character inText =>
    ⟨Text.ne_of_class (members character inText) noOpening,
      Text.ne_of_class (members character inText) noClosing⟩

theorem bracketFree_intercalate
    {texts : List (List Char)}
    (free : ∀ text ∈ texts, BracketFree text) :
    BracketFree ([' '].intercalate texts) := by
  intro character member
  rcases Text.mem_intercalate member with inSeparator | ⟨text, textMem, inText⟩
  · rw [List.mem_singleton.mp inSeparator]
    decide
  · exact free text textMem character inText

/-- A body in brackets and the text behind it. -/
structure Section where
  body : List Char
  behind : List Char
deriving DecidableEq, Repr

/-- The text of a section. -/
def Section.text (part : Section) : List Char :=
  '[' :: (part.body ++ ']' :: part.behind)

/-- The text outside of the brackets of a section, where a bracket counts as a
blank. -/
def Section.outside (part : Section) : List Char :=
  ' ' :: ' ' :: part.behind

/-- A text that is divided by brackets. -/
structure Layout where
  front : List Char := []
  sections : List Section := []
deriving DecidableEq, Repr

namespace Layout

/-- The text of a layout. -/
def text (layout : Layout) : List Char :=
  layout.front ++ layout.sections.flatMap Section.text

/-- The text outside of the brackets. -/
def outside (layout : Layout) : List Char :=
  layout.front ++ layout.sections.flatMap Section.outside

/-- The bodies of a layout. -/
def bodies (layout : Layout) : List (List Char) :=
  layout.sections.map Section.body

/-- A layout is proper when its parts have no brackets. -/
structure Proper (layout : Layout) : Prop where
  front : BracketFree layout.front
  bodies : ∀ part ∈ layout.sections, BracketFree part.body
  behind : ∀ part ∈ layout.sections, BracketFree part.behind

end Layout

/-! ## Brackets that alternate -/

/-- The brackets of a text, in order. -/
def brackets (text : List Char) : List Char :=
  text.filter fun character => character == '[' || character == ']'

/-- The brackets of a text alternate: there is an opening one first, and each
opening one is followed by one that closes it. -/
def Alternate (text : List Char) : Prop :=
  ∃ count, brackets text = (List.replicate count ['[', ']']).flatten

@[simp] theorem brackets_append (first second : List Char) :
    brackets (first ++ second) = brackets first ++ brackets second :=
  List.filter_append ..

theorem brackets_eq_nil_iff {text : List Char} :
    brackets text = [] ↔ BracketFree text := by
  simp [brackets, BracketFree, List.filter_eq_nil_iff]

/-- The brackets of a section are its own. -/
theorem Section.brackets_text
    {part : Section}
    (body : BracketFree part.body)
    (behind : BracketFree part.behind) :
    brackets part.text = ['[', ']'] := by
  have opening : part.text = ['['] ++ (part.body ++ ([']'] ++ part.behind)) := rfl
  rw [opening, brackets_append, brackets_append, brackets_append,
    brackets_eq_nil_iff.mpr body, brackets_eq_nil_iff.mpr behind]
  rfl

theorem Layout.Proper.alternate
    {layout : Layout}
    (proper : layout.Proper) :
    Alternate layout.text := by
  obtain ⟨front, bodies, behind⟩ := proper
  refine ⟨layout.sections.length, ?_⟩
  rw [Layout.text, brackets_append, brackets_eq_nil_iff.mpr front,
    List.nil_append]
  generalize layout.sections = sections at bodies behind
  induction sections with
  | nil => rfl
  | cons part rest inductionHypothesis =>
      rw [List.forall_mem_cons] at bodies behind
      rw [List.flatMap_cons, brackets_append,
        Section.brackets_text bodies.1 behind.1,
        inductionHypothesis bodies.2 behind.2]
      rfl

/-- What comes before and after the first bracket of a text. -/
theorem exists_eq_append_of_brackets
    {text : List Char}
    {bracket : Char}
    {others : List Char}
    (first : brackets text = bracket :: others) :
    ∃ front rest, text = front ++ bracket :: rest ∧ BracketFree front ∧
      brackets rest = others := by
  obtain ⟨front, rest, textEq, free, _, restEq⟩ :=
    List.filter_eq_cons_iff.mp first
  exact ⟨front, rest, textEq,
    brackets_eq_nil_iff.mp (List.filter_eq_nil_iff.mpr free), restEq⟩

/-- The brackets of a text alternate when they divide it into a layout. -/
theorem alternate_iff_exists_layout {text : List Char} :
    Alternate text ↔ ∃ layout : Layout, layout.Proper ∧ layout.text = text := by
  constructor
  · rintro ⟨count, alternating⟩
    -- What comes behind the first pair of brackets has a layout already.
    induction count generalizing text with
    | zero =>
        refine ⟨{ front := text }, ⟨brackets_eq_nil_iff.mp alternating, ?_, ?_⟩,
          List.append_nil text⟩
        · exact nofun
        · exact nofun
    | succ count inductionHypothesis =>
        obtain ⟨front, inside, rfl, frontFree, closing⟩ :=
          exists_eq_append_of_brackets alternating
        obtain ⟨body, rest, rfl, bodyFree, others⟩ :=
          exists_eq_append_of_brackets closing
        obtain ⟨layout, proper, rfl⟩ := inductionHypothesis others
        refine ⟨{ front, sections := ⟨body, layout.front⟩ :: layout.sections },
          ⟨frontFree, ?_, ?_⟩, ?_⟩
        · exact List.forall_mem_cons.mpr ⟨bodyFree, proper.bodies⟩
        · exact List.forall_mem_cons.mpr ⟨proper.front, proper.behind⟩
        · simp [Layout.text, Section.text]
  · rintro ⟨layout, proper, rfl⟩
    exact proper.alternate

end Written

namespace Problem

open Written (BracketFree Layout)

/-- Text outside of the brackets belongs to the declarations. -/
theorem outlineFrom_none_append
    {front : List Char}
    (free : BracketFree front)
    (rest : List Char) :
    outlineFrom none (front ++ rest) =
      (outlineFrom none rest).map fun outline =>
        { outline with declarations := front ++ outline.declarations } := by
  induction front with
  | nil => cases h : outlineFrom none rest <;> simp [h, Except.map]
  | cons first others inductionHypothesis =>
      obtain ⟨notOpening, notClosing⟩ := free first (.head _)
      rw [List.cons_append, outlineFrom, inductionHypothesis fun character member =>
        free character (.tail _ member)]
      · cases outlineFrom none rest <;> rfl
      · exact notOpening
      · exact notClosing

/-- Text within the brackets belongs to the body. -/
theorem outlineFrom_some_append
    {body : List Char}
    (free : BracketFree body)
    (before rest : List Char) :
    outlineFrom (some before) (body ++ ']' :: rest) =
      (outlineFrom none rest).map fun outline =>
        { declarations := ' ' :: outline.declarations
          bodies := (before.reverse ++ body) :: outline.bodies } := by
  induction body generalizing before with
  | nil =>
      rw [List.nil_append, outlineFrom, List.append_nil]
      cases outlineFrom none rest <;> rfl
  | cons first others inductionHypothesis =>
      obtain ⟨notOpening, notClosing⟩ := free first (.head _)
      rw [List.cons_append, outlineFrom, inductionHypothesis fun character member =>
        free character (.tail _ member)]
      · simp
      · exact notOpening
      · exact notClosing

/-- The outline of a proper layout. -/
theorem outline_text
    {layout : Layout}
    (proper : layout.Proper) :
    outline layout.text =
      .ok { declarations := layout.outside, bodies := layout.bodies } := by
  obtain ⟨front, sections⟩ := layout
  obtain ⟨frontFree, bodiesFree, behindFree⟩ := proper
  unfold outline Layout.text Layout.outside Layout.bodies
  dsimp only at *
  induction sections generalizing front with
  | nil =>
      rw [List.flatMap_nil, outlineFrom_none_append frontFree]
      rfl
  | cons part rest inductionHypothesis =>
      have restOutline := inductionHypothesis part.behind
        (behindFree part (.head _))
        (fun other member => bodiesFree other (.tail _ member))
        (fun other member => behindFree other (.tail _ member))
      have textEq : (part :: rest).flatMap Written.Section.text =
          '[' :: (part.body ++ ']' ::
            (part.behind ++ rest.flatMap Written.Section.text)) := by
        simp [Written.Section.text]
      rw [textEq, outlineFrom_none_append frontFree, outlineFrom,
        outlineFrom_some_append (bodiesFree part (.head _)), restOutline]
      rfl

/-- What is left of a text with an outline, outside of the brackets and within
them. -/
theorem exists_layout_of_outlineFrom
    {state : Option (List Char)}
    {text : List Char}
    {result : Outline}
    (outlines : outlineFrom state text = .ok result) :
    (state = none → ∃ layout : Layout, layout.Proper ∧ layout.text = text) ∧
      (state ≠ none → ∃ (body : List Char) (layout : Layout),
        BracketFree body ∧ layout.Proper ∧ body ++ ']' :: layout.text = text) := by
  fun_induction outlineFrom state text generalizing result with
  | case1 =>
      refine ⟨fun _ => ⟨{}, ⟨?_, ?_, ?_⟩, rfl⟩, fun opened => absurd rfl opened⟩ <;>
        simp [BracketFree]
  | case2 | case3 | case5 => contradiction
  | case4 rest inductionHypothesis =>
      obtain ⟨inner, restOutlines, _⟩ := Results.bind_eq_ok_iff.mp outlines
      obtain ⟨body, layout, bodyFree, proper, rfl⟩ :=
        (inductionHypothesis restOutlines).2 (by simp)
      refine ⟨fun _ => ?_, fun opened => absurd rfl opened⟩
      refine ⟨{ sections := ⟨body, layout.front⟩ :: layout.sections },
        ⟨by simp [BracketFree], ?_, ?_⟩, ?_⟩
      · exact List.forall_mem_cons.mpr ⟨bodyFree, proper.bodies⟩
      · exact List.forall_mem_cons.mpr ⟨proper.front, proper.behind⟩
      · simp [Layout.text, Written.Section.text]
  | case6 before rest inductionHypothesis =>
      obtain ⟨inner, restOutlines, _⟩ := Results.bind_eq_ok_iff.mp outlines
      obtain ⟨layout, proper, rfl⟩ := (inductionHypothesis restOutlines).1 rfl
      refine ⟨fun closed => by simp at closed, ?_⟩
      intro _
      exact ⟨[], layout, by simp [BracketFree], proper, rfl⟩
  | case7 first rest notOpening notClosing inductionHypothesis =>
      obtain ⟨inner, restOutlines, _⟩ := Results.bind_eq_ok_iff.mp outlines
      obtain ⟨layout, proper, rfl⟩ := (inductionHypothesis restOutlines).1 rfl
      refine ⟨fun _ => ?_, fun opened => absurd rfl opened⟩
      refine ⟨{ layout with front := first :: layout.front },
        ⟨?_, proper.bodies, proper.behind⟩, rfl⟩
      exact List.forall_mem_cons.mpr ⟨⟨notOpening, notClosing⟩, proper.front⟩
  | case8 before first rest notOpening notClosing inductionHypothesis =>
      obtain ⟨body, layout, bodyFree, proper, rfl⟩ :=
        (inductionHypothesis outlines).2 (by simp)
      refine ⟨fun closed => by simp at closed, ?_⟩
      intro _
      refine ⟨first :: body, layout, ?_, proper, rfl⟩
      exact List.forall_mem_cons.mpr ⟨⟨notOpening, notClosing⟩, bodyFree⟩

/-- A text with an outline is the text of a proper layout. -/
theorem exists_layout
    {text : List Char}
    {result : Outline}
    (outlines : outline text = .ok result) :
    ∃ layout : Layout, layout.Proper ∧ layout.text = text :=
  (exists_layout_of_outlineFrom outlines).1 rfl

/-- A text without an outline is malformed. -/
theorem onlyMalformed_outlineFrom
    (state : Option (List Char))
    (text : List Char) :
    Results.OnlyMalformed (outlineFrom state text) := by
  fun_induction outlineFrom state text with
  | case1 => exact Results.onlyMalformed_ok _
  | case2 | case3 | case5 => exact Results.onlyMalformed_malformed _
  | case4 rest inductionHypothesis | case6 before rest inductionHypothesis
  | case7 first rest notOpening notClosing inductionHypothesis =>
      exact inductionHypothesis.bind fun _ => Results.onlyMalformed_ok _
  | case8 before first rest notOpening notClosing inductionHypothesis =>
      exact inductionHypothesis

end Problem
end OrderEncoding
