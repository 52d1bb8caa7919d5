import OrderEncoding.Proofs.Text.Blanks

/-!
# Texts put together with separators

A separator that stands in neither of two parts before it, or in neither of the two
parts behind it, cuts a text in one way only.  Texts without blanks come back from
what they make up with a comma and a blank between them.
-/

namespace OrderEncoding

variable {α : Type}

/-- An element that neither beginning holds ends both of them. -/
theorem append_cons_inj
    {last : α}
    {first second rest others : List α}
    (firstFree : last ∉ first)
    (secondFree : last ∉ second)
    (same : first ++ last :: rest = second ++ last :: others) :
    first = second ∧ rest = others := by
  induction first generalizing second with
  | nil =>
      cases second with
      | nil => exact ⟨rfl, (List.cons.inj same).2⟩
      | cons head tail =>
          obtain ⟨rfl, _⟩ := List.cons.inj same
          exact absurd (.head _) secondFree
  | cons head tail inductionHypothesis =>
      cases second with
      | nil =>
          obtain ⟨rfl, _⟩ := List.cons.inj same
          exact absurd (.head _) firstFree
      | cons otherHead otherTail =>
          obtain ⟨rfl, tailSame⟩ := List.cons.inj same
          obtain ⟨rfl, restSame⟩ := inductionHypothesis
            (fun member => firstFree (.tail _ member))
            (fun member => secondFree (.tail _ member)) tailSame
          exact ⟨rfl, restSame⟩

/-- An element that neither end holds starts both of them. -/
theorem append_cons_inj_of_last
    {separator : α}
    {first second rest others : List α}
    (restFree : separator ∉ rest)
    (othersFree : separator ∉ others)
    (same : first ++ separator :: rest = second ++ separator :: others) :
    first = second ∧ rest = others := by
  have reversed : rest.reverse ++ separator :: first.reverse =
      others.reverse ++ separator :: second.reverse := by
    simpa using congrArg List.reverse same
  obtain ⟨restSame, firstSame⟩ := append_cons_inj
    (mt List.mem_reverse.mp restFree) (mt List.mem_reverse.mp othersFree) reversed
  exact ⟨List.reverse_inj.mp firstSame, List.reverse_inj.mp restSame⟩

namespace Text

/-- What stands in texts that are joined is of a text or of the separator. -/
theorem mem_intercalate
    {separator : List Char}
    {texts : List (List Char)}
    {character : Char}
    (member : character ∈ separator.intercalate texts) :
    character ∈ separator ∨ ∃ text ∈ texts, character ∈ text := by
  induction texts with
  | nil => simp at member
  | cons first rest inductionHypothesis =>
      cases rest with
      | nil =>
          rw [List.intercalate_singleton] at member
          exact .inr ⟨first, .head _, member⟩
      | cons second others =>
          rw [List.intercalate_cons_cons, List.mem_append, List.mem_append] at member
          rcases member with (inFirst | inSeparator) | inRest
          · exact .inr ⟨first, .head _, inFirst⟩
          · exact .inl inSeparator
          · refine (inductionHypothesis inRest).imp_right ?_
            rintro ⟨text, textMem, inText⟩
            exact ⟨text, .tail _ textMem, inText⟩

/-- The last one of some texts ends what they make up, and the rest of it depends on
the others only. -/
theorem exists_intercalate_append_singleton
    (separator : List Char)
    (texts : List (List Char)) :
    ∃ start, ∀ last, separator.intercalate (texts ++ [last]) = start ++ last := by
  induction texts with
  | nil => exact ⟨[], fun last => by simp⟩
  | cons first rest inductionHypothesis =>
      obtain ⟨start, ends⟩ := inductionHypothesis
      refine ⟨first ++ separator ++ start, fun last => ?_⟩
      rw [List.cons_append, List.intercalate_cons_of_ne_nil (by simp), ends,
        List.append_assoc (first ++ separator)]

/-- With one more comma at the end, texts between commas and blanks are words that
end in a comma. -/
theorem intercalate_append_comma
    {texts : List (List Char)}
    (nonempty : texts ≠ []) :
    [',', ' '].intercalate texts ++ [','] =
      [' '].intercalate (texts.map (· ++ [','])) := by
  induction texts with
  | nil => contradiction
  | cons first rest inductionHypothesis =>
      cases rest with
      | nil => simp
      | cons second others =>
          have later := inductionHypothesis (List.cons_ne_nil _ _)
          rw [List.map_cons] at later
          rw [List.intercalate_cons_cons, List.append_assoc, later, List.map_cons,
            List.map_cons, List.intercalate_cons_cons]
          simp

theorem words_intercalate_append_comma
    {texts : List (List Char)}
    (free : ∀ text ∈ texts, BlankFree text)
    (nonempty : texts ≠ []) :
    words ([',', ' '].intercalate texts ++ [',']) = texts.map (· ++ [',']) := by
  rw [intercalate_append_comma nonempty, words_intercalate (by decide),
    flatMap_words_eq_self]
  · rw [List.forall_mem_map]
    exact fun text member => (free text member).append (by decide)
  · rw [List.forall_mem_map]
    exact fun text _ => by simp

theorem eq_nil_of_intercalate_eq_nil
    {separator : List Char}
    {texts : List (List Char)}
    (visible : ∀ text ∈ texts, text ≠ [])
    (empty : separator.intercalate texts = []) :
    texts = [] := by
  cases texts with
  | nil => rfl
  | cons first rest =>
      have firstVisible := visible first (.head _)
      cases rest with
      | nil =>
          rw [List.intercalate_singleton] at empty
          exact absurd empty firstVisible
      | cons second others =>
          rw [List.intercalate_cons_cons, List.append_eq_nil_iff,
            List.append_eq_nil_iff] at empty
          exact absurd empty.1.1 firstVisible

/-- Texts without blanks are told apart when they stand between commas and
blanks. -/
theorem intercalate_comma_inj
    {texts others : List (List Char)}
    (free : ∀ text ∈ texts, BlankFree text)
    (visible : ∀ text ∈ texts, text ≠ [])
    (othersFree : ∀ text ∈ others, BlankFree text)
    (othersVisible : ∀ text ∈ others, text ≠ [])
    (same : [',', ' '].intercalate texts = [',', ' '].intercalate others) :
    texts = others := by
  by_cases empty : texts = []
  · subst empty
    exact (eq_nil_of_intercalate_eq_nil othersVisible same.symm).symm
  · have otherNonempty : others ≠ [] := by
      rintro rfl
      exact empty (eq_nil_of_intercalate_eq_nil visible same)
    have mapped := words_intercalate_append_comma free empty
    rw [same, words_intercalate_append_comma othersFree otherNonempty] at mapped
    exact (List.map_inj_right fun _ _ => List.append_cancel_right).mp mapped.symm

end Text
end OrderEncoding
