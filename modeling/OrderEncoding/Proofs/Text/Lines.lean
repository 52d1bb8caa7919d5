import OrderEncoding.Proofs.Text.Separators

/-!
# Lines of a text

Lines that hold no line break of their own, each ended by a line feed, are read
back.  Trimming takes nothing off a line that starts and ends visibly, and no
more than an end off one that starts visibly.
-/

namespace OrderEncoding
namespace Text

theorem linesOfPieces_cons
    (piece : List Char)
    {rest : List (List Char)}
    (more : rest ≠ []) :
    linesOfPieces (piece :: rest) = dropReturn piece :: linesOfPieces rest := by
  cases rest with
  | nil => contradiction
  | cons next others => rfl

/-- A line feed ends the first line. -/
theorem lines_append_lineFeed_cons
    {line : List Char}
    (unbroken : '\n' ∉ line)
    (rest : List Char) :
    lines (line ++ '\n' :: rest) = dropReturn line :: lines rest := by
  have pieces : (line ++ '\n' :: rest).splitOnP (· == '\n') =
      line :: rest.splitOnP (· == '\n') := by
    refine List.splitOnP_append_cons_of_forall_mem ?_ '\n' rfl rest
    intro character member
    rw [beq_eq_false_iff_ne]
    rintro rfl
    exact unbroken member
  rw [lines, pieces, linesOfPieces_cons line (List.splitOnP_ne_nil _ _), lines]

theorem dropReturn_eq_self
    {line : List Char}
    (unbroken : '\r' ∉ line) :
    dropReturn line = line := by
  rw [dropReturn, if_neg]
  intro last
  exact unbroken (List.mem_of_getLast? last)

/-- No character of a line ends it. -/
def Unbroken (line : List Char) : Prop :=
  ∀ character ∈ line, character ≠ '\n' ∧ character ≠ '\r'

instance (line : List Char) : Decidable (Unbroken line) :=
  decidable_of_iff
    (line.all (fun character => character != '\n' && character != '\r') = true)
    (by simp [Unbroken])

theorem Unbroken.append
    {first second : List Char}
    (firstUnbroken : Unbroken first)
    (secondUnbroken : Unbroken second) :
    Unbroken (first ++ second) :=
  List.forall_mem_append.mpr ⟨firstUnbroken, secondUnbroken⟩

theorem unbroken_intercalate
    {separator : List Char}
    (separatorUnbroken : Unbroken separator)
    {texts : List (List Char)}
    (unbroken : ∀ text ∈ texts, Unbroken text) :
    Unbroken (separator.intercalate texts) := by
  intro character member
  rcases mem_intercalate member with inSeparator | ⟨text, textMem, inText⟩
  · exact separatorUnbroken character inSeparator
  · exact unbroken text textMem character inText

theorem BlankFree.unbroken
    {line : List Char}
    (free : BlankFree line) :
    Unbroken line := by
  intro character member
  have visible := free character member
  constructor
  · rintro rfl
    exact absurd visible (by decide)
  · rintro rfl
    exact absurd visible (by decide)

/-- Lines that end with line feeds are the lines of the text they make up. -/
theorem lines_flatMap
    {written : List (List Char)}
    (unbroken : ∀ line ∈ written, Unbroken line) :
    lines (written.flatMap (· ++ ['\n'])) = written := by
  induction written with
  | nil => rfl
  | cons line rest inductionHypothesis =>
      obtain ⟨lineUnbroken, restUnbroken⟩ := List.forall_mem_cons.mp unbroken
      have noFeed : '\n' ∉ line := fun feed => (lineUnbroken _ feed).1 rfl
      have noReturn : '\r' ∉ line := fun carriage =>
        (lineUnbroken _ carriage).2 rfl
      rw [List.flatMap_cons, List.append_assoc, List.singleton_append,
        lines_append_lineFeed_cons noFeed, dropReturn_eq_self noReturn,
        inductionHypothesis restUnbroken]

/-- The same for lines that are printed one after the other. -/
theorem lines_join
    {written : List String}
    (unbroken : ∀ line ∈ written, Unbroken line.toList) :
    lines (String.join (written.map (· ++ "\n"))).toList =
      written.map String.toList := by
  have printed : (String.join (written.map (· ++ "\n"))).toList =
      (written.map String.toList).flatMap (· ++ ['\n']) := by
    rw [String.toList_join, List.flatMap_map, List.flatMap_map]
    simp
  rw [printed, lines_flatMap]
  intro line member
  obtain ⟨text, given, rfl⟩ := List.mem_map.mp member
  exact unbroken text given

/-! ## Trimming -/

/-- Trimming a line that starts visibly takes off an end at most. -/
theorem exists_trim_cons
    {first : Char}
    (visible : isBlank first = false)
    (rest : List Char) :
    ∃ kept, trim (first :: rest) = first :: kept ∧ kept <+: rest := by
  refine ⟨(rest.reverse.dropWhile isBlank).reverse, ?_, ?_⟩
  · rw [trim, List.dropWhile_cons_of_neg (by rw [visible]; decide),
      List.reverse_cons, List.dropWhile_append]
    split
    next allBlank =>
      rw [List.isEmpty_iff.mp allBlank,
        List.dropWhile_cons_of_neg (by rw [visible]; decide)]
      rfl
    next someVisible => rw [List.reverse_append, List.reverse_singleton,
        List.singleton_append]
  · rw [← List.reverse_suffix, List.reverse_reverse]
    exact List.dropWhile_suffix isBlank

theorem dropWhile_eq_self_of_prefix
    {start text : List Char}
    (starts : start <+: text)
    (free : BlankFree start)
    (nonempty : start ≠ []) :
    text.dropWhile isBlank = text := by
  obtain ⟨rest, rfl⟩ := starts
  cases start with
  | nil => exact absurd rfl nonempty
  | cons first others =>
      rw [List.cons_append, List.dropWhile_cons_of_neg]
      rw [free first (.head _)]
      decide

/-- A text that starts and ends visibly is not changed by trimming. -/
theorem trim_eq_self
    (start last : List Char)
    {text : List Char}
    (starts : start <+: text)
    (startFree : BlankFree start)
    (startNonempty : start ≠ [])
    (ends : last <:+ text)
    (lastFree : BlankFree last)
    (lastNonempty : last ≠ []) :
    trim text = text := by
  rw [trim, dropWhile_eq_self_of_prefix starts startFree startNonempty,
    dropWhile_eq_self_of_prefix (List.reverse_prefix.mpr ends) lastFree.reverse
      (by simpa using lastNonempty), List.reverse_reverse]

end Text
end OrderEncoding
