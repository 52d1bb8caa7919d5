import OrderEncoding.Proofs.Formula.Construction

/-!
# The numbers of atoms under operations

Atoms are registered, and clauses are added with their atoms or over registered
atoms only, in any order and with or without success.  All along, the list of
atoms and the table of their numbers say the same, signed numbers and literals
stand for each other, and a number that an atom has been given stays its number.
-/

namespace OrderEncoding
namespace Formula

/-! ## Numbers and literals -/

theorem numberOf_eq_ok_iff_lookup
    {formula : Formula}
    {atom : Atom}
    {number : Nat} :
    formula.numberOf atom = .ok number ↔
      formula.numbers.lookup atom = some number := by
  rw [numberOf]
  cases formula.numbers.lookup atom with
  | none => simp
  | some found => simp

theorem Indexed.numberOf_eq_ok_iff
    {formula : Formula}
    (indexed : formula.Indexed)
    {atom : Atom}
    {number : Nat} :
    formula.numberOf atom = .ok number ↔
      ∃ position, formula.atoms[position]? = some atom ∧ number = position + 1 := by
  constructor
  · intro numbered
    have registered := indexed.mem_atoms_of_numberOf numbered
    rw [indexed.numberOf_eq_ok registered, Except.ok.injEq] at numbered
    exact ⟨_, List.getElem?_idxOf registered, numbered.symm⟩
  · rintro ⟨position, found, rfl⟩
    obtain ⟨inAtoms, rfl⟩ := List.getElem?_eq_some_iff.mp found
    rw [indexed.numberOf_eq_ok (List.getElem_mem inAtoms),
      indexed.nodup.idxOf_getElem position inAtoms]

/-- An atom that is not registered has no number. -/
theorem Indexed.numberOf_eq_error
    {formula : Formula}
    (indexed : formula.Indexed)
    {atom : Atom}
    (unregistered : atom ∉ formula.atoms) :
    formula.numberOf atom = .error (.of (.unknownAtom atom.text)) := by
  simp only [numberOf, indexed.lookup_numbers, if_neg unregistered]

/-- A number beyond the atoms, or zero, denotes no literal. -/
theorem literalOf_eq_error
    {formula : Formula}
    {number : Int}
    (outOfRange : ¬(1 ≤ number.natAbs ∧ number.natAbs ≤ formula.atoms.length)) :
    formula.literalOf number =
      .error (.of (.literalOutOfRange number formula.atoms.length)) := by
  unfold literalOf
  split
  next zero => rfl
  next position size =>
    have beyond : formula.atoms.length ≤ position := by omega
    simp only [List.getElem?_eq_none beyond]

theorem Indexed.signedNumber_eq_error
    {formula : Formula}
    (indexed : formula.Indexed)
    {literal : Literal}
    (unregistered : literal.atom ∉ formula.atoms) :
    formula.signedNumber literal =
      .error (.of (.unknownAtom literal.atom.text)) := by
  rw [signedNumber, indexed.numberOf_eq_error unregistered]
  rfl

/-- The number that denotes a literal is the literal's own. -/
theorem Indexed.numberAt_of_literalOf
    {formula : Formula}
    (indexed : formula.Indexed)
    {literal : Literal}
    {number : Int}
    (denotes : formula.literalOf number = .ok literal) :
    literal.atom ∈ formula.atoms ∧ formula.numberAt literal = number := by
  obtain ⟨position, size, found, sign⟩ := literalOf_eq_ok_iff.mp denotes
  obtain ⟨inAtoms, atPosition⟩ := List.getElem?_eq_some_iff.mp found
  refine ⟨List.mem_of_getElem? found, ?_⟩
  rw [numberAt, ← atPosition, indexed.nodup.idxOf_getElem position inAtoms,
    signedPosition, sign]
  simp only [decide_eq_true_eq]
  split <;> omega

/-- The signed number of a literal is the number that denotes it. -/
theorem Indexed.signedNumber_eq_ok_iff
    {formula : Formula}
    (indexed : formula.Indexed)
    {literal : Literal}
    {number : Int} :
    formula.signedNumber literal = .ok number ↔
      formula.literalOf number = .ok literal := by
  constructor
  · intro numbered
    by_cases registered : literal.atom ∈ formula.atoms
    · rw [indexed.signedNumber_eq_ok registered, Except.ok.injEq] at numbered
      rw [← numbered, literalOf_numberAt registered]
    · rw [indexed.signedNumber_eq_error registered] at numbered
      contradiction
  · intro denotes
    obtain ⟨registered, same⟩ := indexed.numberAt_of_literalOf denotes
    rw [indexed.signedNumber_eq_ok registered, same]

theorem Indexed.exists_signedNumber_iff
    {formula : Formula}
    (indexed : formula.Indexed)
    {literal : Literal} :
    (∃ number, formula.signedNumber literal = .ok number) ↔
      literal.atom ∈ formula.atoms := by
  constructor
  · rintro ⟨number, numbered⟩
    exact (indexed.numberAt_of_literalOf
      (indexed.signedNumber_eq_ok_iff.mp numbered)).1
  · exact fun registered => ⟨_, indexed.signedNumber_eq_ok registered⟩

/-- The numbers of literals are those of the atoms, with a sign. -/
theorem exists_literalOf_iff
    {formula : Formula}
    {number : Int} :
    (∃ literal, formula.literalOf number = .ok literal) ↔
      1 ≤ number.natAbs ∧ number.natAbs ≤ formula.atoms.length := by
  constructor
  · rintro ⟨literal, denotes⟩
    obtain ⟨position, size, found, _⟩ := literalOf_eq_ok_iff.mp denotes
    have inAtoms := (List.getElem?_eq_some_iff.mp found).1
    omega
  · rintro ⟨positive, bounded⟩
    have inAtoms : number.natAbs - 1 < formula.atoms.length := by omega
    refine ⟨⟨decide (0 < number), formula.atoms[number.natAbs - 1]⟩, ?_⟩
    exact literalOf_eq_ok_iff.mpr ⟨number.natAbs - 1, by omega,
      List.getElem?_eq_getElem inAtoms, rfl⟩

/-! ## Operations -/

/-- What can be done with a formula. -/
inductive Operation where
  | register (atom : Atom)
  | addClause (clause : Clause)
  | addRegisteredClause (clause : Clause)

/-- A formula after an operation, and the operation's result: the number of the
atom that was registered, or nothing. -/
structure Performed where
  formula : Formula
  result : Except Failure (Option Nat)

/-- Performs an operation.  One that fails leaves the formula as it was. -/
def perform (formula : Formula) : Operation → Performed
  | .register atom =>
    let registration := formula.enroll atom
    { formula := registration.formula, result := .ok (some registration.number) }
  | .addClause clause =>
    { formula := formula.addClause clause, result := .ok none }
  | .addRegisteredClause clause =>
    match formula.addRegisteredClause clause with
    | .ok next => { formula := next, result := .ok none }
    | .error failure => { formula, result := .error failure }

/-- The formula after some operations, of which any may fail. -/
def performAll (formula : Formula) (operations : List Operation) : Formula :=
  operations.foldl (fun formula operation => (formula.perform operation).formula)
    formula

/-- A formula is reached when operations lead to it from some atoms without
clauses. -/
def Reached (formula : Formula) : Prop :=
  ∃ atoms operations, formula = (ofAtoms atoms).performAll operations

/-- An operation makes a formula grow, or changes nothing. -/
theorem perform_cases
    (formula : Formula)
    (operation : Operation) :
    Grows formula (formula.perform operation).formula ∨
      (formula.perform operation).formula = formula := by
  cases operation with
  | register atom => exact .inl (.register formula atom)
  | addClause clause => exact .inl (.addClause formula clause)
  | addRegisteredClause clause =>
      cases adds : formula.addRegisteredClause clause with
      | ok next =>
          simp only [perform, adds]
          exact .inl (.addRegisteredClause adds)
      | error failure =>
          exact .inr (by simp only [perform, adds])

theorem WellFormed.perform
    {formula : Formula}
    (wellFormed : formula.WellFormed)
    (operation : Operation) :
    (formula.perform operation).formula.WellFormed := by
  rcases formula.perform_cases operation with grows | same
  · exact wellFormed.grows grows
  · rwa [same]

theorem WellFormed.performAll
    {formula : Formula}
    (wellFormed : formula.WellFormed)
    (operations : List Operation) :
    (formula.performAll operations).WellFormed := by
  induction operations generalizing formula with
  | nil => exact wellFormed
  | cons operation others inductionHypothesis =>
      exact inductionHypothesis (wellFormed.perform operation)

theorem Reached.wellFormed
    {formula : Formula}
    (reached : formula.Reached) :
    formula.WellFormed := by
  obtain ⟨atoms, operations, rfl⟩ := reached
  have start : (ofAtoms atoms).WellFormed := by
    refine ⟨indexed_ofAtoms atoms, ?_⟩
    rw [clauses_ofAtoms]
    exact nofun
  exact start.performAll operations

/-! ## Atoms that stay where they are -/

theorem Indexed.atoms_isPrefix_foldl_register
    {formula : Formula}
    (indexed : formula.Indexed)
    (atoms : List Atom) :
    formula.atoms <+: (atoms.foldl Formula.register formula).atoms := by
  induction atoms generalizing formula with
  | nil => exact List.prefix_rfl
  | cons first rest inductionHypothesis =>
      refine List.IsPrefix.trans ?_ (inductionHypothesis (indexed.register first))
      by_cases present : first ∈ formula.atoms
      · simp only [indexed.register_of_mem present, List.prefix_rfl]
      · rw [indexed.register_of_notMem present]
        exact List.prefix_append formula.atoms [first]

/-- New atoms come after the old ones. -/
theorem WellFormed.atoms_isPrefix_of_grows
    {formula next : Formula}
    (wellFormed : formula.WellFormed)
    (grows : Grows formula next) :
    formula.atoms <+: next.atoms := by
  cases grows with
  | register atom => exact wellFormed.atoms_isPrefix_foldl_register [atom]
  | addClause clause =>
      exact wellFormed.atoms_isPrefix_foldl_register (clause.map Literal.atom)
  | addRegisteredClause adds =>
      obtain ⟨_, rfl⟩ := wellFormed.addRegisteredClause_eq_ok_iff.mp adds
      exact List.prefix_rfl

theorem WellFormed.atoms_isPrefix_performAll
    {formula : Formula}
    (wellFormed : formula.WellFormed)
    (operations : List Operation) :
    formula.atoms <+: (formula.performAll operations).atoms := by
  induction operations generalizing formula with
  | nil => exact List.prefix_rfl
  | cons operation others inductionHypothesis =>
      refine List.IsPrefix.trans ?_
        (inductionHypothesis (wellFormed.perform operation))
      rcases formula.perform_cases operation with grows | same
      · exact wellFormed.atoms_isPrefix_of_grows grows
      · change formula.atoms <+: (formula.perform operation).formula.atoms
        simp only [same, List.prefix_rfl]

/-- An atom keeps its number under further operations. -/
theorem WellFormed.numberOf_performAll
    {formula : Formula}
    (wellFormed : formula.WellFormed)
    {atom : Atom}
    {number : Nat}
    (numbered : formula.numberOf atom = .ok number)
    (operations : List Operation) :
    (formula.performAll operations).numberOf atom = .ok number := by
  obtain ⟨position, found, same⟩ := wellFormed.numberOf_eq_ok_iff.mp numbered
  obtain ⟨more, extended⟩ := wellFormed.atoms_isPrefix_performAll operations
  have later := wellFormed.performAll operations
  refine later.numberOf_eq_ok_iff.mpr ⟨position, ?_, same⟩
  have inAtoms := (List.getElem?_eq_some_iff.mp found).1
  rw [← extended, List.getElem?_append_left inAtoms, found]

/-- The number that registering an atom gives is the atom's number. -/
theorem Indexed.numberOf_enroll
    {formula : Formula}
    (indexed : formula.Indexed)
    (atom : Atom) :
    (formula.enroll atom).formula.numberOf atom =
      .ok (formula.enroll atom).number := by
  by_cases present : atom ∈ formula.atoms
  · simp only [enroll, numberOf, indexed.lookup_numbers, if_pos present]
  · simp [enroll, numberOf, indexed.lookup_numbers, present]

/-- A clause over registered atoms is refused because of an atom of it that is not
registered. -/
theorem Indexed.perform_addRegisteredClause_cases
    {formula : Formula}
    (indexed : formula.Indexed)
    (clause : Clause) :
    ((∀ literal ∈ clause, literal.atom ∈ formula.atoms) ∧
      formula.perform (.addRegisteredClause clause) =
        ⟨formula.withClause clause, .ok none⟩) ∨
    ∃ literal ∈ clause, literal.atom ∉ formula.atoms ∧
      formula.perform (.addRegisteredClause clause) =
        ⟨formula, .error (.of (.unknownAtom literal.atom.text))⟩ := by
  cases adds : formula.addRegisteredClause clause with
  | ok next =>
      obtain ⟨registered, rfl⟩ := indexed.addRegisteredClause_eq_ok_iff.mp adds
      exact .inl ⟨registered, by simp only [perform, adds]⟩
  | error failure =>
      obtain ⟨literal, member, fails⟩ : ∃ literal ∈ clause,
          formula.numberOf literal.atom = .error failure := by
        refine Results.exists_mem_of_mapM_eq_error ?_
        rw [addRegisteredClause] at adds
        cases numbers : clause.mapM (fun literal => formula.numberOf literal.atom) with
        | error own =>
            rw [numbers] at adds
            rw [Except.error.inj adds]
        | ok values =>
            rw [numbers] at adds
            cases adds
      have unregistered : literal.atom ∉ formula.atoms := fun registered => by
        rw [indexed.numberOf_eq_ok registered] at fails
        cases fails
      rw [indexed.numberOf_eq_error unregistered] at fails
      obtain rfl := Except.error.inj fails
      exact .inr ⟨literal, member, unregistered, by simp only [perform, adds]⟩

/-- Whatever operations a formula is reached by, its atoms do not repeat, the table
holds exactly their positions, counted from one, and its clauses are over them.
Literals over its atoms and the signed numbers up to their count stand for each
other; other atoms have no number, and other numbers denote nothing, zero and the
least machine integer among them.  An atom keeps the number that it was given,
and a clause that is refused leaves the formula as it is. -/
theorem numbers_of_reached
    {formula : Formula}
    (reached : formula.Reached) :
    formula.atoms.Nodup ∧
    (∀ atom number, formula.numbers.lookup atom = some number ↔
      ∃ position, formula.atoms[position]? = some atom ∧ number = position + 1) ∧
    (∀ clause ∈ formula.clauses, ∀ literal ∈ clause,
      literal.atom ∈ formula.atoms) ∧
    (∀ literal number, formula.signedNumber literal = .ok number ↔
      formula.literalOf number = .ok literal) ∧
    (∀ literal, (∃ number, formula.signedNumber literal = .ok number) ↔
      literal.atom ∈ formula.atoms) ∧
    (∀ number, (∃ literal, formula.literalOf number = .ok literal) ↔
      1 ≤ number.natAbs ∧ number.natAbs ≤ formula.atoms.length) ∧
    (∀ literal, literal.atom ∉ formula.atoms →
      formula.numberOf literal.atom =
        .error (.of (.unknownAtom literal.atom.text)) ∧
      formula.signedNumber literal =
        .error (.of (.unknownAtom literal.atom.text))) ∧
    (∀ number, ¬(1 ≤ number.natAbs ∧ number.natAbs ≤ formula.atoms.length) →
      formula.literalOf number =
        .error (.of (.literalOutOfRange number formula.atoms.length))) ∧
    formula.literalOf 0 =
      .error (.of (.literalOutOfRange 0 formula.atoms.length)) ∧
    (formula.atoms.length ≤ Word.greatest →
      formula.literalOf Word.least =
        .error (.of (.literalOutOfRange Word.least formula.atoms.length))) ∧
    (∀ atom operations,
      ((formula.enroll atom).formula.performAll operations).numberOf atom =
        .ok (formula.enroll atom).number) ∧
    (∀ atom number operations, formula.numberOf atom = .ok number →
      (formula.performAll operations).numberOf atom = .ok number) ∧
    ∀ clause,
      ((∃ literal ∈ clause, literal.atom ∉ formula.atoms) ↔
        ∃ failure, (formula.perform (.addRegisteredClause clause)).result =
          .error failure) ∧
      ∀ failure, (formula.perform (.addRegisteredClause clause)).result =
          .error failure →
        (formula.perform (.addRegisteredClause clause)).formula = formula ∧
        ∃ literal ∈ clause, literal.atom ∉ formula.atoms ∧
          failure = .of (.unknownAtom literal.atom.text) := by
  have wellFormed := reached.wellFormed
  have beyond := @literalOf_eq_error formula
  refine ⟨wellFormed.nodup, fun _ _ => ?_, wellFormed.registered,
    fun _ _ => wellFormed.signedNumber_eq_ok_iff,
    fun _ => wellFormed.exists_signedNumber_iff, fun _ => exists_literalOf_iff,
    fun literal unregistered => ⟨wellFormed.numberOf_eq_error unregistered,
      wellFormed.signedNumber_eq_error unregistered⟩,
    fun _ => beyond, beyond (by simp), fun bounded => beyond ?_,
    fun atom operations => (wellFormed.register atom).numberOf_performAll
      (wellFormed.numberOf_enroll atom) operations,
    fun _ _ operations numbered =>
      wellFormed.numberOf_performAll numbered operations, fun clause => ?_⟩
  · rw [← numberOf_eq_ok_iff_lookup, wellFormed.numberOf_eq_ok_iff]
  · have least : Word.least.natAbs = 9223372036854775808 := rfl
    have greatest : Word.greatest = 9223372036854775807 := rfl
    omega
  · rcases wellFormed.perform_addRegisteredClause_cases clause with
      ⟨registered, performed⟩ | ⟨literal, member, unregistered, performed⟩
    · rw [performed]
      refine ⟨iff_of_false ?_ nofun, nofun⟩
      rintro ⟨literal, member, unregistered⟩
      exact unregistered (registered literal member)
    · rw [performed]
      refine ⟨iff_of_true ⟨literal, member, unregistered⟩ ⟨_, rfl⟩, ?_⟩
      rintro _ ⟨⟩
      exact ⟨rfl, literal, member, unregistered, rfl⟩

/-- A repeated atom is registered once, and a clause that is refused leaves its atom
without a number. -/
theorem numbers_of_reached_refused_clause :
    ∃ formula : Formula, formula.Reached ∧
      formula.atoms = [.order "x" 0, .order "x" 1, .selector 0 0] ∧
      formula.clauses = [[⟨false, .selector 0 0⟩, ⟨true, .order "x" 0⟩]] ∧
      formula.signedNumber ⟨false, .order "x" 1⟩ = .ok (-2) ∧
      formula.literalOf (-2) = .ok ⟨false, .order "x" 1⟩ ∧
      formula.literalOf Word.least =
        .error (.of (.literalOutOfRange Word.least 3)) ∧
      formula.numberOf (.selector 7 7) = .error (.of (.unknownAtom "q(7,7)")) ∧
      ∀ operations, (formula.performAll operations).numberOf (.selector 0 0) =
        .ok 3 := by
  let formula := (ofAtoms [.order "x" 0, .order "x" 1, .order "x" 0]).performAll
    [.addRegisteredClause [⟨true, .order "x" 1⟩, ⟨true, .selector 7 7⟩],
      .addClause [⟨false, .selector 0 0⟩, ⟨true, .order "x" 0⟩]]
  have reached : formula.Reached := ⟨_, _, rfl⟩
  have atoms : formula.atoms = [.order "x" 0, .order "x" 1, .selector 0 0] := by
    decide
  have clauses : formula.clauses =
      [[⟨false, .selector 0 0⟩, ⟨true, .order "x" 0⟩]] := by decide
  have number : formula.signedNumber ⟨false, .order "x" 1⟩ = .ok (-2) := by decide
  obtain ⟨_, table, _, inverse, _, _, unknown, _, _, least, _, kept, _⟩ :=
    numbers_of_reached reached
  have selected : formula.numberOf (.selector 0 0) = .ok 3 :=
    numberOf_eq_ok_iff_lookup.mpr ((table _ _).mpr ⟨2, by rw [atoms]; rfl, rfl⟩)
  have unnamed := (unknown ⟨true, .selector 7 7⟩ (by rw [atoms]; decide)).1
  rw [atoms] at least
  exact ⟨formula, reached, atoms, clauses, number, (inverse _ _).mp number,
    least (by decide), unnamed, fun operations => kept _ _ operations selected⟩

end Formula
end OrderEncoding
