import OrderEncoding.Text.Blank

/-!
# Texts without blanks

Taking blanks away from a text that has none leaves it as it is.  The words of a
text have no blanks, and words that are written with blanks between them are the
words of their text.  Trimming a text keeps its words.
-/

namespace OrderEncoding
namespace Text

/-- A text has no blank. -/
def BlankFree (text : List Char) : Prop :=
  ∀ character ∈ text, isBlank character = false

instance (text : List Char) : Decidable (BlankFree text) :=
  decidable_of_iff (text.all (!isBlank ·) = true) (by simp [BlankFree])

theorem BlankFree.append
    {first second : List Char}
    (firstFree : BlankFree first)
    (secondFree : BlankFree second) :
    BlankFree (first ++ second) := by
  intro character member
  rcases List.mem_append.mp member with inFirst | inSecond
  · exact firstFree character inFirst
  · exact secondFree character inSecond

theorem BlankFree.reverse
    {text : List Char}
    (free : BlankFree text) :
    BlankFree text.reverse :=
  fun character member => free character (List.mem_reverse.mp member)

theorem BlankFree.removeBlanks_eq
    {text : List Char}
    (free : BlankFree text) :
    removeBlanks text = text := by
  rw [removeBlanks, List.filter_eq_self]
  intro character member
  rw [free character member, Bool.not_false]

theorem BlankFree.dropWhile_eq
    {text : List Char}
    (free : BlankFree text) :
    text.dropWhile isBlank = text := by
  cases text with
  | nil => rfl
  | cons first rest =>
      rw [List.dropWhile_cons_of_neg]
      rw [free first (.head _)]
      exact Bool.false_ne_true

theorem BlankFree.trim_eq
    {text : List Char}
    (free : BlankFree text) :
    trim text = text := by
  rw [trim, free.dropWhile_eq, free.reverse.dropWhile_eq, List.reverse_reverse]

theorem BlankFree.not_mem_lineFeed
    {text : List Char}
    (free : BlankFree text) :
    '\n' ∉ text :=
  fun member => absurd (free _ member) (by decide)

/-! ## Words -/

/-- A piece between separators holds none of them. -/
theorem eq_false_of_mem_splitOnP
    {separates : Char → Bool}
    {text piece : List Char}
    (member : piece ∈ text.splitOnP separates) :
    ∀ character ∈ piece, separates character = false := by
  induction text generalizing piece with
  | nil =>
      rw [List.splitOnP_nil, List.mem_singleton] at member
      simp [member]
  | cons first rest inductionHypothesis =>
      rw [List.splitOnP_cons_eq_if_modifyHead] at member
      split at member
      · rcases List.mem_cons.mp member with rfl | inRest
        · simp
        · exact inductionHypothesis inRest
      · rename_i notSeparator
        obtain ⟨next, others, split⟩ :=
          List.exists_cons_of_ne_nil (List.splitOnP_ne_nil separates rest)
        rw [split] at member inductionHypothesis
        rcases List.mem_cons.mp member with rfl | inOthers
        · intro character inPiece
          rcases List.mem_cons.mp inPiece with rfl | inNext
          · exact Bool.not_eq_true _ ▸ notSeparator
          · exact inductionHypothesis (.head _) character inNext
        · exact inductionHypothesis (.tail _ inOthers)

theorem blankFree_of_mem_words
    {text word : List Char}
    (member : word ∈ words text) :
    BlankFree word :=
  eq_false_of_mem_splitOnP (List.mem_filter.mp member).1

/-- A blank separates words. -/
theorem words_append_blank_cons
    (first rest : List Char)
    {blank : Char}
    (isBlank : Text.isBlank blank = true) :
    words (first ++ blank :: rest) = words first ++ words rest := by
  rw [words, List.splitOnP_append_cons first rest isBlank, List.filter_append,
    words, words]

theorem words_blank_cons
    {blank : Char}
    (isBlank : Text.isBlank blank = true)
    (rest : List Char) :
    words (blank :: rest) = words rest :=
  words_append_blank_cons [] rest isBlank

/-- Blanks have no words. -/
theorem words_eq_nil
    {blanks : List Char}
    (allBlank : ∀ character ∈ blanks, isBlank character = true) :
    words blanks = [] := by
  induction blanks with
  | nil => rfl
  | cons first rest inductionHypothesis =>
      obtain ⟨firstBlank, restBlank⟩ := List.forall_mem_cons.mp allBlank
      rw [words_blank_cons firstBlank, inductionHypothesis restBlank]

/-- Blanks before a text do not change its words. -/
theorem words_dropWhile (text : List Char) :
    words (text.dropWhile isBlank) = words text := by
  induction text with
  | nil => rfl
  | cons first rest inductionHypothesis =>
      cases blank : isBlank first with
      | false => rw [List.dropWhile_cons_of_neg (by rw [blank]; decide)]
      | true =>
          rw [List.dropWhile_cons_of_pos blank, words_blank_cons blank,
            inductionHypothesis]

/-- Blanks after a text do not change its words. -/
theorem words_append_blanks
    (text : List Char)
    {blanks : List Char}
    (allBlank : ∀ character ∈ blanks, isBlank character = true) :
    words (text ++ blanks) = words text := by
  cases blanks with
  | nil => rw [List.append_nil]
  | cons first rest =>
      obtain ⟨firstBlank, restBlank⟩ := List.forall_mem_cons.mp allBlank
      rw [words_append_blank_cons text rest firstBlank, words_eq_nil restBlank,
        List.append_nil]

/-- Trimming a text does not change its words. -/
@[simp] theorem words_trim (text : List Char) :
    words (trim text) = words text := by
  let start := text.dropWhile isBlank
  have split : trim text ++ (start.reverse.takeWhile isBlank).reverse = start := by
    rw [trim, ← List.reverse_append, List.takeWhile_append_dropWhile,
      List.reverse_reverse]
  have allBlank : ∀ character ∈ (start.reverse.takeWhile isBlank).reverse,
      isBlank character = true := fun character member =>
    List.all_eq_true.mp List.all_takeWhile character (List.mem_reverse.mp member)
  calc
    words (trim text) =
        words (trim text ++ (start.reverse.takeWhile isBlank).reverse) :=
      (words_append_blanks (trim text) allBlank).symm
    _ = words start := by rw [split]
    _ = words text := words_dropWhile text

theorem words_eq_singleton
    {word : List Char}
    (free : BlankFree word)
    (nonempty : word ≠ []) :
    words word = [word] := by
  rw [words, List.splitOnP_eq_singleton free,
    List.filter_cons_of_pos (by simpa using nonempty), List.filter_nil]

/-- Blanks between some texts separate their words. -/
theorem words_intercalate
    {blank : Char}
    (isBlank : Text.isBlank blank = true)
    (texts : List (List Char)) :
    words ([blank].intercalate texts) = texts.flatMap words := by
  induction texts with
  | nil => rfl
  | cons first rest inductionHypothesis =>
      cases rest with
      | nil =>
          rw [List.intercalate_singleton, List.flatMap_singleton]
      | cons second others =>
          rw [List.intercalate_cons_cons, List.append_assoc,
            List.singleton_append, words_append_blank_cons _ _ isBlank,
            inductionHypothesis]
          rfl

/-- Texts without blanks are the words of what they make up with blanks between
them. -/
theorem flatMap_words_eq_self
    {texts : List (List Char)}
    (free : ∀ text ∈ texts, BlankFree text)
    (nonempty : ∀ text ∈ texts, text ≠ []) :
    texts.flatMap words = texts := by
  induction texts with
  | nil => rfl
  | cons first rest inductionHypothesis =>
      obtain ⟨firstFree, restFree⟩ := List.forall_mem_cons.mp free
      obtain ⟨firstNonempty, restNonempty⟩ := List.forall_mem_cons.mp nonempty
      rw [List.flatMap_cons, words_eq_singleton firstFree firstNonempty,
        inductionHypothesis restFree restNonempty, List.singleton_append]

end Text
end OrderEncoding
