import OrderEncoding.Formula
import OrderEncoding.Proofs.Repetitions

/-!
# Registering atoms

Every atom of a formula is registered once, at the place of its first
appearance, and a clause brings its own atoms with it.  The list of atoms and the
table of their numbers are kept in step.
-/

namespace OrderEncoding
namespace Formula

/-! ## The table of numbers -/

theorem numbering_append_singleton
    (atoms : List Atom)
    (last : Atom) :
    Atom.numbering (atoms ++ [last]) =
      (last, atoms.length + 1) :: Atom.numbering atoms := by
  simp [Atom.numbering, List.zipIdx_append, Nat.add_comm]

/-- Of atoms that do not repeat, each has its position as its number, counted from
one. -/
theorem lookup_numbering
    {atoms : List Atom}
    (nodup : atoms.Nodup)
    (atom : Atom) :
    (Atom.numbering atoms).lookup atom =
      if atom ∈ atoms then some (atoms.idxOf atom + 1) else none := by
  induction atoms using List.reverseRecOn with
  | nil => rfl
  | append_singleton earlier last inductionHypothesis =>
      obtain ⟨nodupEarlier, _, apart⟩ := List.nodup_append.mp nodup
      rw [numbering_append_singleton, List.lookup_cons]
      by_cases same : atom = last
      · have new : atom ∉ earlier := fun old => apart atom old last (.head _) same
        simp [same ▸ new, same, List.idxOf_append_of_notMem]
      · rw [beq_false_of_ne same, inductionHypothesis nodupEarlier]
        by_cases old : atom ∈ earlier
        · simp [old, List.idxOf_append_of_mem]
        · simp [old, same]

/-- Each atom of a formula is listed once, and the table holds its number. -/
structure Indexed (formula : Formula) : Prop where
  nodup : formula.atoms.Nodup
  numbers : formula.numbers = Atom.numbering formula.atoms

theorem indexed_empty : ({} : Formula).Indexed := ⟨List.nodup_nil, rfl⟩

theorem Indexed.lookup_numbers
    {formula : Formula}
    (indexed : formula.Indexed)
    (atom : Atom) :
    formula.numbers.lookup atom =
      if atom ∈ formula.atoms then some (formula.atoms.idxOf atom + 1)
      else none := by
  rw [indexed.numbers, lookup_numbering indexed.nodup]

/-- An indexed formula is made up of its atoms and its clauses. -/
theorem Indexed.eq_mk
    {formula : Formula}
    (indexed : formula.Indexed) :
    { atoms := formula.atoms, clauses := formula.clauses } = formula := by
  rw [← indexed.numbers]

/-- Formulas with the same atoms differ in their clauses only. -/
theorem Indexed.eq_with_clauses
    {formula other : Formula}
    (indexed : formula.Indexed)
    (otherIndexed : other.Indexed)
    (sameAtoms : formula.atoms = other.atoms) :
    formula = { other with clauses := formula.clauses } := by
  rw [otherIndexed.numbers, ← sameAtoms]
  exact indexed.eq_mk.symm

/-- An atom that has a number is not registered again. -/
theorem Indexed.register_of_mem
    {formula : Formula}
    (indexed : formula.Indexed)
    {atom : Atom}
    (present : atom ∈ formula.atoms) :
    formula.register atom = formula := by
  simp only [register, enroll, indexed.lookup_numbers, if_pos present]

/-- A formula with one more atom. -/
def withAtom (formula : Formula) (atom : Atom) : Formula :=
  { formula with
    atoms := formula.atoms ++ [atom]
    numbers := (atom, formula.atoms.length + 1) :: formula.numbers }

/-- An atom without a number is listed after the others. -/
theorem Indexed.register_of_notMem
    {formula : Formula}
    (indexed : formula.Indexed)
    {atom : Atom}
    (absent : atom ∉ formula.atoms) :
    formula.register atom = formula.withAtom atom := by
  simp only [register, enroll, indexed.lookup_numbers, if_neg absent, withAtom]

theorem Indexed.withAtom
    {formula : Formula}
    (indexed : formula.Indexed)
    {atom : Atom}
    (absent : atom ∉ formula.atoms) :
    (formula.withAtom atom).Indexed := by
  refine ⟨indexed.nodup.append (List.nodup_singleton atom) ?_, ?_⟩
  · simpa using absent
  · rw [Formula.withAtom, indexed.numbers, numbering_append_singleton]

/-- Registering an atom keeps the list and the table in step. -/
theorem Indexed.register
    {formula : Formula}
    (indexed : formula.Indexed)
    (atom : Atom) :
    (formula.register atom).Indexed := by
  by_cases present : atom ∈ formula.atoms
  · rw [indexed.register_of_mem present]
    exact indexed
  · rw [indexed.register_of_notMem present]
    exact indexed.withAtom present

theorem Indexed.foldl_register
    {formula : Formula}
    (indexed : formula.Indexed)
    (atoms : List Atom) :
    (atoms.foldl Formula.register formula).Indexed := by
  induction atoms generalizing formula with
  | nil => exact indexed
  | cons first rest inductionHypothesis =>
      exact inductionHypothesis (indexed.register first)

theorem Indexed.addClause
    {formula : Formula}
    (indexed : formula.Indexed)
    (clause : Clause) :
    (formula.addClause clause).Indexed := by
  obtain ⟨nodup, numbers⟩ := indexed.foldl_register (clause.map Literal.atom)
  exact ⟨nodup, numbers⟩

theorem Indexed.foldl_addClause
    {formula : Formula}
    (indexed : formula.Indexed)
    (clauses : List Clause) :
    (clauses.foldl Formula.addClause formula).Indexed := by
  induction clauses generalizing formula with
  | nil => exact indexed
  | cons first rest inductionHypothesis =>
      exact inductionHypothesis (indexed.addClause first)

/-! ## Registered atoms -/

@[simp] theorem clauses_register
    (formula : Formula)
    (atom : Atom) :
    (formula.register atom).clauses = formula.clauses := by
  unfold register enroll
  split <;> rfl

theorem Indexed.mem_atoms_register
    {formula : Formula}
    (indexed : formula.Indexed)
    {atom registered : Atom} :
    atom ∈ (formula.register registered).atoms ↔
      atom ∈ formula.atoms ∨ atom = registered := by
  by_cases present : registered ∈ formula.atoms
  · rw [indexed.register_of_mem present]
    exact ⟨.inl, fun either => either.elim id fun same => same ▸ present⟩
  · rw [indexed.register_of_notMem present]
    simp [Formula.withAtom]

@[simp] theorem clauses_foldl_register
    (formula : Formula)
    (atoms : List Atom) :
    (atoms.foldl register formula).clauses = formula.clauses := by
  induction atoms generalizing formula with
  | nil => rfl
  | cons first rest inductionHypothesis =>
      rw [List.foldl_cons, inductionHypothesis, clauses_register]

theorem Indexed.mem_atoms_foldl_register
    {formula : Formula}
    (indexed : formula.Indexed)
    {atoms : List Atom}
    {atom : Atom} :
    atom ∈ (atoms.foldl Formula.register formula).atoms ↔
      atom ∈ formula.atoms ∨ atom ∈ atoms := by
  induction atoms generalizing formula with
  | nil => simp
  | cons first rest inductionHypothesis =>
      rw [List.foldl_cons, inductionHypothesis (indexed.register first),
        indexed.mem_atoms_register, List.mem_cons, or_assoc]

/-- New atoms are registered in their order. -/
theorem Indexed.foldl_register_eq
    {formula : Formula}
    (indexed : formula.Indexed)
    {atoms : List Atom}
    (nodup : (formula.atoms ++ atoms).Nodup) :
    atoms.foldl Formula.register formula =
      { formula with
        atoms := formula.atoms ++ atoms
        numbers := Atom.numbering (formula.atoms ++ atoms) } := by
  induction atoms generalizing formula with
  | nil => simp [← indexed.numbers]
  | cons first rest inductionHypothesis =>
      have absent : first ∉ formula.atoms := fun present =>
        (List.nodup_append.mp nodup).2.2 first present first (.head _) rfl
      rw [List.append_cons] at nodup
      rw [List.foldl_cons, indexed.register_of_notMem absent,
        inductionHypothesis (indexed.withAtom absent) nodup, Formula.withAtom,
        List.append_assoc, List.singleton_append]

@[simp] theorem clauses_addClause
    (formula : Formula)
    (clause : Clause) :
    (formula.addClause clause).clauses = formula.clauses ++ [clause] := by
  simp [addClause]

theorem Indexed.mem_atoms_addClause
    {formula : Formula}
    (indexed : formula.Indexed)
    {clause : Clause}
    {atom : Atom} :
    atom ∈ (formula.addClause clause).atoms ↔
      atom ∈ formula.atoms ∨ atom ∈ clause.map Literal.atom :=
  indexed.mem_atoms_foldl_register

@[simp] theorem clauses_foldl_addClause
    (formula : Formula)
    (clauses : List Clause) :
    (clauses.foldl addClause formula).clauses = formula.clauses ++ clauses := by
  induction clauses generalizing formula with
  | nil => simp
  | cons first rest inductionHypothesis =>
      rw [List.foldl_cons, inductionHypothesis, clauses_addClause,
        List.append_assoc, List.singleton_append]

theorem Indexed.mem_atoms_foldl_addClause
    {formula : Formula}
    (indexed : formula.Indexed)
    {clauses : List Clause}
    {atom : Atom} :
    atom ∈ (clauses.foldl Formula.addClause formula).atoms ↔
      atom ∈ formula.atoms ∨
        ∃ clause ∈ clauses, atom ∈ clause.map Literal.atom := by
  induction clauses generalizing formula with
  | nil => simp
  | cons first rest inductionHypothesis =>
      rw [List.foldl_cons, inductionHypothesis (indexed.addClause first),
        indexed.mem_atoms_addClause, or_assoc]
      simp only [List.mem_cons, exists_eq_or_imp]

/-! ## The order of first appearance -/

/-- A list holds the atoms of another one, each of them once, in the order in
which they appear there first. -/
structure FirstAppearances (atoms appearing : List Atom) : Prop where
  mem_iff : ∀ atom, atom ∈ atoms ↔ atom ∈ appearing
  ordered : atoms.Pairwise fun first second =>
    appearing.idxOf first < appearing.idxOf second

theorem FirstAppearances.nodup
    {atoms appearing : List Atom}
    (listed : FirstAppearances atoms appearing) :
    atoms.Nodup := by
  refine listed.ordered.imp ?_
  rintro atom _ earlier rfl
  exact Nat.lt_irrefl _ earlier

theorem firstAppearances_eraseDups (appearing : List Atom) :
    FirstAppearances appearing.eraseDups appearing :=
  ⟨fun _ => List.mem_eraseDups, pairwise_idxOf_eraseDups appearing⟩

/-- An atom is registered at the place of its first appearance. -/
theorem Indexed.atoms_register
    {formula : Formula}
    (indexed : formula.Indexed)
    {appearing : List Atom}
    (listed : formula.atoms = appearing.eraseDups)
    (atom : Atom) :
    (formula.register atom).atoms = (appearing ++ [atom]).eraseDups := by
  have mem_iff : atom ∈ formula.atoms ↔ atom ∈ appearing := by
    rw [listed, List.mem_eraseDups]
  by_cases present : atom ∈ formula.atoms
  · rw [indexed.register_of_mem present, listed,
      eraseDups_append_of_mem (mem_iff.mp present)]
  · rw [indexed.register_of_notMem present, Formula.withAtom, listed,
      eraseDups_append_of_notMem fun seen => present (mem_iff.mpr seen)]

theorem Indexed.atoms_foldl_register
    {formula : Formula}
    (indexed : formula.Indexed)
    {appearing : List Atom}
    (listed : formula.atoms = appearing.eraseDups)
    (atoms : List Atom) :
    (atoms.foldl Formula.register formula).atoms =
      (appearing ++ atoms).eraseDups := by
  induction atoms generalizing formula appearing with
  | nil => rwa [List.append_nil]
  | cons first rest inductionHypothesis =>
      rw [List.append_cons]
      exact inductionHypothesis (indexed.register first)
        (indexed.atoms_register listed first)

/-- The atoms of some clauses, in order and as often as they appear. -/
def appearances (clauses : List Clause) : List Atom :=
  clauses.flatMap (·.map Literal.atom)

/-- The atoms of clauses that are added one after another are registered in the
order of their first appearance. -/
theorem Indexed.atoms_foldl_addClause
    {formula : Formula}
    (indexed : formula.Indexed)
    {appearing : List Atom}
    (listed : formula.atoms = appearing.eraseDups)
    (clauses : List Clause) :
    (clauses.foldl Formula.addClause formula).atoms =
      (appearing ++ appearances clauses).eraseDups := by
  induction clauses generalizing formula appearing with
  | nil => rwa [appearances, List.flatMap_nil, List.append_nil]
  | cons clause rest inductionHypothesis =>
      have added : (formula.addClause clause).atoms =
          (appearing ++ clause.map Literal.atom).eraseDups :=
        indexed.atoms_foldl_register listed (clause.map Literal.atom)
      have others := inductionHypothesis (indexed.addClause clause) added
      rwa [List.append_assoc] at others

/-! ## Listed atoms -/

theorem indexed_ofAtoms (atoms : List Atom) : (ofAtoms atoms).Indexed :=
  indexed_empty.foldl_register atoms

@[simp] theorem clauses_ofAtoms (atoms : List Atom) :
    (ofAtoms atoms).clauses = [] :=
  clauses_foldl_register {} atoms

theorem atoms_ofAtoms (atoms : List Atom) :
    (ofAtoms atoms).atoms = atoms.eraseDups :=
  indexed_empty.atoms_foldl_register List.eraseDups_nil.symm atoms

theorem ofAtoms_eq_of_nodup
    {atoms : List Atom}
    (nodup : atoms.Nodup) :
    ofAtoms atoms = { atoms } :=
  indexed_empty.foldl_register_eq nodup

/-! ## Well-formed formulas -/

/-- Every atom has one number, and the clauses are over registered atoms. -/
structure WellFormed (formula : Formula) : Prop extends formula.Indexed where
  registered : ∀ clause ∈ formula.clauses, ∀ literal ∈ clause,
    literal.atom ∈ formula.atoms

theorem wellFormed_empty : ({} : Formula).WellFormed :=
  ⟨indexed_empty, nofun⟩

/-- Clauses that bring their atoms with them leave a formula well-formed. -/
theorem WellFormed.foldl_addClause
    {formula : Formula}
    (wellFormed : formula.WellFormed)
    (clauses : List Clause) :
    (clauses.foldl addClause formula).WellFormed := by
  refine ⟨wellFormed.toIndexed.foldl_addClause clauses, ?_⟩
  intro clause member literal literalMem
  rw [clauses_foldl_addClause, List.mem_append] at member
  rw [wellFormed.mem_atoms_foldl_addClause]
  rcases member with old | new
  · exact .inl (wellFormed.registered clause old literal literalMem)
  · exact .inr ⟨clause, new, List.mem_map_of_mem literalMem⟩

end Formula
end OrderEncoding
