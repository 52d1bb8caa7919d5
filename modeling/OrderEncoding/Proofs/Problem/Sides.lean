import OrderEncoding.Proofs.Pairings
import OrderEncoding.Proofs.Problem.Terms
import OrderEncoding.Proofs.Results

/-!
# Reading sides

A text is read as a side when, without its blanks, it is the text of a proper
written side whose terms denote constants and monomials, and every partial sum
of the constants is a machine integer.  The side then has the value that was
written.
-/

namespace OrderEncoding

namespace SideTerm

/-- The value of a term when the variable `x` has the value `value x`. -/
def eval (value : String → Int) : SideTerm → Int
  | constant number => number
  | monomial term => term.eval value

/-- The number of a constant term. -/
def constant? : SideTerm → Option Int
  | constant number => some number
  | monomial _ => none

/-- The monomial of a term that is not constant. -/
def monomial? : SideTerm → Option Monomial
  | constant _ => none
  | monomial term => some term

end SideTerm

namespace Side

/-- The side that some terms add up to, beginning with a constant. -/
def ofTerms (constant : Int) (terms : List SideTerm) : Side :=
  { monomials := terms.filterMap SideTerm.monomial?
    constant := constant + total (terms.filterMap SideTerm.constant?) }

/-- Every partial sum of the constants of some terms is a machine integer. -/
def ConstantsFit (constant : Int) (terms : List SideTerm) : Prop :=
  ∀ count, Word.Fits
    (constant + total ((terms.filterMap SideTerm.constant?).take count))

theorem eval_ofTerms
    (value : String → Int)
    (constant : Int)
    (terms : List SideTerm) :
    (ofTerms constant terms).eval value =
      constant + total (terms.map (SideTerm.eval value)) := by
  induction terms generalizing constant with
  | nil => simp [ofTerms, eval]
  | cons term rest inductionHypothesis =>
      have restEval := inductionHypothesis constant
      cases term with
      | constant number =>
          simp only [eval, ofTerms, List.filterMap_cons, SideTerm.monomial?,
            SideTerm.constant?, total_cons, List.map_cons, SideTerm.eval]
            at restEval ⊢
          omega
      | monomial term =>
          simp only [eval, ofTerms, List.filterMap_cons, SideTerm.monomial?,
            SideTerm.constant?, total_cons, List.map_cons, SideTerm.eval]
            at restEval ⊢
          omega

theorem ofTerms_constant_cons
    (constant number : Int)
    (rest : List SideTerm) :
    ofTerms constant (.constant number :: rest) =
      ofTerms (constant + number) rest := by
  simp [ofTerms, List.filterMap_cons, SideTerm.constant?, SideTerm.monomial?,
    Int.add_assoc]

theorem constantsFit_nil_iff
    {constant : Int} :
    ConstantsFit constant [] ↔ Word.Fits constant := by
  simp [ConstantsFit]

theorem constantsFit_constant_cons_iff
    {constant number : Int}
    {rest : List SideTerm} :
    ConstantsFit constant (.constant number :: rest) ↔
      Word.Fits constant ∧ ConstantsFit (constant + number) rest := by
  constructor
  · intro fits
    refine ⟨by simpa using fits 0, ?_⟩
    intro count
    simpa [SideTerm.constant?, Int.add_assoc] using fits (count + 1)
  · rintro ⟨fits, restFits⟩ count
    cases count with
    | zero => simpa using fits
    | succ count =>
        simpa [SideTerm.constant?, Int.add_assoc] using restFits count

theorem constantsFit_monomial_cons_iff
    {constant : Int}
    {term : Monomial}
    {rest : List SideTerm} :
    ConstantsFit constant (.monomial term :: rest) ↔
      ConstantsFit constant rest := Iff.rfl

/-- A first chunk is read as a constant, which is added to those before it and
has to fit with them, or as a monomial, which is put before the others. -/
theorem readTerms_cons_eq_ok_iff
    {scope : List Variable}
    {constant : Int}
    {chunk : List Char}
    {rest : List (List Char)}
    {side : Side} :
    readTerms scope constant (chunk :: rest) = .ok side ↔
      (∃ number, readTerm scope chunk = .ok (.constant number) ∧
        Word.Fits (constant + number) ∧
        readTerms scope (constant + number) rest = .ok side) ∨
      ∃ term others, readTerm scope chunk = .ok (.monomial term) ∧
        readTerms scope constant rest = .ok others ∧
        { others with monomials := term :: others.monomials } = side := by
  rw [readTerms, Results.bind_eq_ok_iff]
  constructor
  · rintro ⟨term, reads, restReads⟩
    cases term with
    | constant number =>
        dsimp only at restReads
        split at restReads
        next fits => exact .inl ⟨number, reads, fits, restReads⟩
        next overflows => contradiction
    | monomial term =>
        obtain ⟨others, othersRead, same⟩ := Results.bind_eq_ok_iff.mp restReads
        exact .inr ⟨term, others, reads, othersRead, Except.ok.inj same⟩
  · rintro (⟨number, reads, fits, restReads⟩ | ⟨term, others, reads, othersRead, rfl⟩)
    · refine ⟨.constant number, reads, ?_⟩
      dsimp only
      rw [if_pos fits, restReads]
    · exact ⟨.monomial term, reads,
        Results.bind_eq_ok_iff.mpr ⟨others, othersRead, rfl⟩⟩

/-- Chunks are read as the sum of the terms that they are read as, one by
one. -/
theorem readTerms_eq_ok_iff
    {scope : List Variable}
    {constant : Int}
    (fits : Word.Fits constant)
    {chunks : List (List Char)}
    {side : Side} :
    readTerms scope constant chunks = .ok side ↔
      ∃ terms, List.Forall₂ (fun chunk term => readTerm scope chunk = .ok term)
        chunks terms ∧ ConstantsFit constant terms ∧
        side = ofTerms constant terms := by
  induction chunks generalizing constant side with
  | nil =>
      rw [readTerms, Except.ok.injEq]
      constructor
      · rintro rfl
        exact ⟨[], .nil, constantsFit_nil_iff.mpr fits, by simp [ofTerms]⟩
      · rintro ⟨terms, reads, _, rfl⟩
        obtain rfl := List.forall₂_nil_left_iff.mp reads
        simp [ofTerms]
  | cons chunk rest inductionHypothesis =>
      rw [readTerms_cons_eq_ok_iff]
      constructor
      · rintro (⟨number, firstReads, nextFits, restReads⟩ |
          ⟨term, others, firstReads, othersRead, rfl⟩)
        · obtain ⟨terms, reads, restFit, rfl⟩ :=
            (inductionHypothesis nextFits).mp restReads
          exact ⟨.constant number :: terms, .cons firstReads reads,
            constantsFit_constant_cons_iff.mpr ⟨fits, restFit⟩,
            (ofTerms_constant_cons ..).symm⟩
        · obtain ⟨terms, reads, restFit, rfl⟩ :=
            (inductionHypothesis fits).mp othersRead
          exact ⟨.monomial term :: terms, .cons firstReads reads, restFit, rfl⟩
      · rintro ⟨_, reads, allFit, rfl⟩
        obtain ⟨term, terms, firstReads, restReads, rfl⟩ :=
          List.forall₂_cons_left_iff.mp reads
        cases term with
        | constant number =>
            obtain ⟨_, restFit⟩ := constantsFit_constant_cons_iff.mp allFit
            have nextFits : Word.Fits (constant + number) := by
              simpa using restFit 0
            refine .inl ⟨number, firstReads, nextFits, ?_⟩
            rw [inductionHypothesis nextFits]
            exact ⟨terms, restReads, restFit, ofTerms_constant_cons ..⟩
        | monomial term =>
            refine .inr ⟨term, ofTerms constant terms, firstReads, ?_, rfl⟩
            exact (inductionHypothesis fits).mpr ⟨terms, restReads, allFit, rfl⟩

/-! ## Cutting a text into chunks -/

theorem chunks_ne_nil
    (first : Char)
    (rest : List Char) :
    ∃ chunk others, chunks (first :: rest) = (first :: chunk) :: others := by
  rw [chunks]
  split
  · exact ⟨[], [], rfl⟩
  · split
    · exact ⟨[], _, rfl⟩
    · exact ⟨_, _, rfl⟩

/-- Cutting a text loses none of it. -/
theorem flatten_chunks (text : List Char) : (chunks text).flatten = text := by
  induction text with
  | nil => rfl
  | cons first rest inductionHypothesis =>
      rw [chunks]
      split
      · rename_i cut
        rw [cut, List.flatten_nil] at inductionHypothesis
        simp [← inductionHypothesis]
      · rename_i cut
        rw [cut, List.flatten_cons] at inductionHypothesis
        split <;> simp [← inductionHypothesis]

/-- Every chunk but the first begins with a sign. -/
theorem head?_of_mem_tail_chunks
    {text chunk : List Char}
    (member : chunk ∈ (chunks text).tail) :
    chunk.head?.any isSign = true := by
  induction text with
  | nil => contradiction
  | cons first rest inductionHypothesis =>
      rw [chunks] at member
      split at member
      · contradiction
      · rename_i cut
        rw [cut, List.tail_cons] at inductionHypothesis
        split at member
        · rename_i signed
          rcases List.mem_cons.mp member with rfl | inOthers
          · exact signed
          · exact inductionHypothesis inOthers
        · exact inductionHypothesis member

theorem chunks_append
    {chunk rest : List Char}
    (nonempty : chunk ≠ [])
    (unsigned : ∀ character ∈ chunk.tail, isSign character = false)
    (signed : rest.head?.all isSign = true) :
    chunks (chunk ++ rest) = chunk :: chunks rest := by
  induction chunk with
  | nil => contradiction
  | cons first others inductionHypothesis =>
      rw [List.cons_append, chunks]
      cases others with
      | nil =>
          cases rest with
          | nil => rfl
          | cons next rest =>
              obtain ⟨chunk, others, cut⟩ := chunks_ne_nil next rest
              rw [List.head?_cons, Option.all_some] at signed
              simp [cut, signed]
      | cons second others =>
          have secondUnsigned : isSign second = false :=
            unsigned second (.head _)
          rw [inductionHypothesis (List.cons_ne_nil _ _)
            fun character member => unsigned character (.tail _ member)]
          simp [secondUnsigned]

end Side

namespace Written

theorem Term.Denotes.eval_eq
    {scope : List Variable}
    {term : Term}
    {result : SideTerm}
    (denotes : term.Denotes scope result)
    (value : String → Int) :
    result.eval value = term.eval value := by
  cases denotes with
  | constant noName _ => rw [SideTerm.eval, Term.eval, if_pos noName]
  | monomial var named _ _ found =>
      have sameName : var.name = String.ofList term.name := by
        simpa using List.find?_some found
      rw [SideTerm.eval, Term.eval, if_neg named, Monomial.eval, sameName]

theorem Term.Denotes.declared
    {scope : List Variable}
    {term : Term}
    {result : SideTerm}
    (denotes : term.Denotes scope result) :
    ∀ monomial ∈ result.monomial?, monomial.var ∈ scope ∧
      Word.Fits monomial.coefficient ∧ Word.Fits (-monomial.coefficient) := by
  cases denotes with
  | constant => simp [SideTerm.monomial?]
  | monomial var _ fits _ found =>
      rintro _ ⟨⟩
      refine ⟨List.mem_of_find?_eq_some found, ?_⟩
      have signed := term.coefficient_eq_or
      unfold Word.Fits Word.least Word.greatest at *
      dsimp only
      omega

/-- What a side denotes over the given variables. -/
def Side.Denotes
    (scope : List Variable)
    (side : Side)
    (result : OrderEncoding.Side) : Prop :=
  ∃ terms, List.Forall₂ (Term.Denotes scope) side terms ∧
    OrderEncoding.Side.ConstantsFit 0 terms ∧
    result = OrderEncoding.Side.ofTerms 0 terms

/-- A side denotes what has the same value. -/
theorem Side.Denotes.eval_eq
    {scope : List Variable}
    {side : Side}
    {result : OrderEncoding.Side}
    (denotes : side.Denotes scope result)
    (value : String → Int) :
    result.eval value = side.eval value := by
  obtain ⟨terms, denoted, _, rfl⟩ := denotes
  have sameValues : side.map (Term.eval value) =
      terms.map (SideTerm.eval value) :=
    map_eq_map_of_forall₂
      (fun _ _ termDenotes => (termDenotes.eval_eq value).symm) denoted
  rw [OrderEncoding.Side.eval_ofTerms, ← sameValues, Int.zero_add, Side.eval]

/-- A side denotes monomials over the given variables, whose coefficients are
machine integers as their opposites are. -/
theorem Side.Denotes.declared
    {scope : List Variable}
    {side : Side}
    {result : OrderEncoding.Side}
    (denotes : side.Denotes scope result) :
    ∀ monomial ∈ result.monomials, monomial.var ∈ scope ∧
      Word.Fits monomial.coefficient ∧ Word.Fits (-monomial.coefficient) := by
  obtain ⟨terms, denoted, _, rfl⟩ := denotes
  intro monomial member
  obtain ⟨term, termMem, isMonomial⟩ := List.mem_filterMap.mp member
  obtain ⟨_, _, termDenotes⟩ := exists_related_of_mem_right denoted termMem
  exact termDenotes.declared monomial isMonomial

end Written

namespace Side

/-- The chunks of a side are the texts of its terms. -/
theorem chunks_text
    {side : Written.Side}
    (proper : ∀ term ∈ side, term.Proper)
    (signed : ∀ term ∈ side.tail, term.sign ≠ none) :
    chunks side.text = side.map Written.Term.text := by
  induction side with
  | nil => rfl
  | cons first rest inductionHypothesis =>
      rw [List.tail_cons] at signed
      have firstProper := proper first (.head _)
      have restChunks := inductionHypothesis
        (fun term member => proper term (.tail _ member))
        (fun term member => signed term (List.mem_of_mem_tail member))
      have restSigned : (Written.Side.text rest).head?.all isSign = true := by
        cases rest with
        | nil => rfl
        | cons second others =>
            rw [Written.Side.text_cons]
            exact second.head?_append_text (signed second (.head _)) _
      rw [Written.Side.text_cons, chunks_append firstProper.text_ne_nil
        firstProper.unsigned_tail restSigned, restChunks, List.map_cons]

/-- A proper side is read as what it denotes. -/
theorem read_text_eq_ok_iff
    {scope : List Variable}
    {written : Written.Side}
    (proper : written.Proper)
    {text : List Char}
    (sameText : written.text = Text.removeBlanks text)
    {side : Side} :
    read scope text = .ok side ↔ written.Denotes scope side := by
  obtain ⟨first, rest, rfl⟩ := List.exists_cons_of_ne_nil proper.nonempty
  have cut := chunks_text proper.terms proper.signed
  rw [read, ← sameText, cut, List.map_cons]
  dsimp only
  rw [← List.map_cons (f := Written.Term.text), readTerms_eq_ok_iff (by decide)]
  refine exists_congr fun terms => and_congr_left fun _ => ?_
  rw [List.forall₂_map_left_iff]
  have withProper : ∀ {related : Written.Term → SideTerm → Prop},
      List.Forall₂ related (first :: rest) terms →
      List.Forall₂ (fun term result => term.Proper ∧ related term result)
        (first :: rest) terms :=
    fun pairs => (List.forall₂_and_left _ _).mpr ⟨proper.terms, pairs⟩
  constructor
  · intro reads
    refine (withProper reads).imp fun term result both => ?_
    exact ((readTerm_text_eq_ok_iff both.1.complete both.1.decimal).mp both.2).2
  · intro denotes
    refine (withProper denotes).imp fun term result both => ?_
    exact (readTerm_text_eq_ok_iff both.1.complete both.1.decimal).mpr
      ⟨both.1.digits, both.2⟩

/-- Only proper sides are read. -/
theorem exists_written_of_read
    {scope : List Variable}
    {text : List Char}
    {side : Side}
    (reads : read scope text = .ok side) :
    ∃ written : Written.Side, written.Proper ∧
      written.text = Text.removeBlanks text := by
  rw [read] at reads
  split at reads
  · contradiction
  · rename_i nonempty
    obtain ⟨terms, termsRead, _⟩ :=
      (readTerms_eq_ok_iff (by decide)).mp reads
    obtain ⟨written, cut, proper⟩ :=
      exists_map_eq_of_forall₂ Written.Term.text (fun term _ => term.Proper)
        (fun chunk term readsTerm => by
          obtain ⟨written, proper, sameText, _⟩ :=
            readTerm_eq_ok_iff.mp readsTerm
          exact ⟨written, sameText, proper⟩) termsRead
    refine ⟨written, ⟨?_, ?_, ?_⟩, ?_⟩
    · rintro rfl
      exact nonempty cut.symm
    · intro term member
      obtain ⟨_, _, termProper⟩ := exists_related_of_mem_left proper member
      exact termProper
    · intro term member noSign
      have chunkMem : term.text ∈ (chunks (Text.removeBlanks text)).tail := by
        rw [← cut, ← List.map_tail]
        exact List.mem_map_of_mem member
      have signedHead := head?_of_mem_tail_chunks chunkMem
      obtain ⟨_, _, termProper⟩ :=
        exists_related_of_mem_left proper (List.mem_of_mem_tail member)
      obtain ⟨first, rest, bodyEq, firstUnsigned⟩ :=
        termProper.complete.isSign_head termProper.decimal
      simp [Written.Term.text, Written.Term.mark, noSign, bodyEq,
        firstUnsigned] at signedHead
    · rw [Written.Side.text, List.flatMap_def, cut, flatten_chunks]

/-- A text is read as what the proper side denotes that it is, without its
blanks, the text of. -/
theorem read_eq_ok_iff
    {scope : List Variable}
    {text : List Char}
    {side : Side} :
    read scope text = .ok side ↔
      ∃ written : Written.Side, written.Proper ∧
        written.text = Text.removeBlanks text ∧ written.Denotes scope side := by
  constructor
  · intro reads
    obtain ⟨written, proper, sameText⟩ := exists_written_of_read reads
    exact ⟨written, proper, sameText,
      (read_text_eq_ok_iff proper sameText).mp reads⟩
  · rintro ⟨written, proper, sameText, denotes⟩
    exact (read_text_eq_ok_iff proper sameText).mpr denotes

end Side
end OrderEncoding
