import Mathlib.Data.List.Perm.Subperm
import OrderEncoding.Proofs.Dimacs.RoundTrip
import OrderEncoding.Proofs.Formula.Operations

/-!
# The names of the numbers

A formula is read from a text and a list of names, one for each number.  Names
that repeat are registered once, so the numbers after them move to other names
although the list has the right length.  The numbers keep their names, and the
formula is written as the clauses that were read, exactly when no name repeats.
-/

namespace OrderEncoding

namespace Formula

/-- A formula is what numbered clauses say when the numbers have the given names. -/
structure NamedBy
    (formula : Formula)
    (atoms : List Atom)
    (numbered : NumberedClauses) :
    Prop where
  sameAtoms : formula.atoms = atoms
  /-- The literals are, one by one, those that the numbers name. -/
  clauses : List.Forall₂ (List.Forall₂ (NumberNames atoms))
    numbered.clauses formula.clauses
  /-- The formula's text has the same numbers, whatever the comment is. -/
  written : ∀ comment, ∃ text, formula.toDimacs comment = .ok text ∧
    NumberedClauses.read text = .ok numbered

/-! ## Reading a formula -/

/-- A text and a list of names are read when there are as many names as the text
announces and all numbers name literals among the distinct names. -/
theorem ofDimacs_eq_ok_iff
    {text : String}
    {atoms : List Atom}
    {formula : Formula} :
    ofDimacs text atoms = .ok formula ↔
      ∃ numbered, NumberedClauses.read text = .ok numbered ∧
        numbered.atomCount = atoms.length ∧
        ∃ named,
          List.Forall₂ (List.Forall₂ (NumberNames (ofAtoms atoms).atoms))
            numbered.clauses named ∧
          formula = { ofAtoms atoms with clauses := named } := by
  rw [ofDimacs, Results.bind_eq_ok_iff]
  refine exists_congr fun numbered => and_congr_right fun _ => ?_
  split
  next different => simp [different]
  next same =>
    rw [(indexed_ofAtoms atoms).foldlM_addNumberedClause_eq_ok_iff,
      clauses_ofAtoms]
    simp [not_not.mp same]

/-- The numbers that name literals among distinct atoms are the literals' own. -/
theorem Indexed.map_numberAt_eq
    {formula : Formula}
    (indexed : formula.Indexed)
    {clauses : List (List Int)}
    {named : List Clause}
    (names : List.Forall₂ (List.Forall₂ (NumberNames formula.atoms))
      clauses named) :
    named.map (·.map formula.numberAt) = clauses := by
  have ofClause (numbers : List Int) (clause : Clause)
      (clauseNames : List.Forall₂ (NumberNames formula.atoms) numbers clause) :
      id numbers = clause.map formula.numberAt := by
    rw [id, ← List.map_id numbers]
    refine map_eq_map_of_forall₂ (fun number literal denotes => ?_) clauseNames
    exact (indexed.numberAt_of_literalOf
      (literalOf_eq_ok_iff_numberNames.mpr denotes)).2.symm
  rw [← map_eq_map_of_forall₂ ofClause names, List.map_id]

/-- Clauses whose literals have numbers make an indexed formula well-formed. -/
theorem Indexed.wellFormed_of_names
    {formula : Formula}
    (indexed : formula.Indexed)
    {clauses : List (List Int)}
    (names : List.Forall₂ (List.Forall₂ (NumberNames formula.atoms))
      clauses formula.clauses) :
    formula.WellFormed := by
  refine ⟨indexed, fun clause clauseMem literal member => ?_⟩
  obtain ⟨numbers, _, clauseNames⟩ := exists_related_of_mem_right names clauseMem
  exact mem_atoms_of_numberNames clauseNames member

theorem Indexed.numbered_eq
    {formula : Formula}
    (indexed : formula.Indexed)
    {clauses : List (List Int)}
    (names : List.Forall₂ (List.Forall₂ (NumberNames formula.atoms))
      clauses formula.clauses) :
    formula.numbered = { atomCount := formula.atoms.length, clauses } := by
  rw [numbered, indexed.map_numberAt_eq names]

/-- A formula that is read has the distinct names as its atoms, and it is what its
numbered clauses say with these names. -/
theorem namedBy_atoms_of_ofDimacs
    {text : String}
    {atoms : List Atom}
    {formula : Formula}
    (reads : ofDimacs text atoms = .ok formula) :
    ∃ numbered, NumberedClauses.read text = .ok numbered ∧
      numbered.atomCount = atoms.length ∧
      FirstAppearances formula.atoms atoms ∧
      formula.NamedBy formula.atoms
        { numbered with atomCount := formula.atoms.length } := by
  obtain ⟨numbered, numberedReads, sameCount, named, names, rfl⟩ :=
    ofDimacs_eq_ok_iff.mp reads
  have listed : FirstAppearances (ofAtoms atoms).atoms atoms :=
    atoms_ofAtoms atoms ▸ firstAppearances_eraseDups atoms
  have indexed : Indexed { ofAtoms atoms with clauses := named } :=
    ⟨(indexed_ofAtoms atoms).nodup, (indexed_ofAtoms atoms).numbers⟩
  have wellFormed := indexed.wellFormed_of_names names
  have fewer : (ofAtoms atoms).atoms.length ≤ numbered.atomCount := by
    rw [sameCount]
    exact (listed.nodup.subperm fun atom => (listed.mem_iff atom).mp).length_le
  have readable : NumberedClauses.Readable
      { numbered with atomCount := (ofAtoms atoms).atoms.length } := by
    obtain ⟨atomsBounded, clausesBounded, fits⟩ :=
      NumberedClauses.readable_of_read numberedReads
    exact ⟨Nat.le_trans fewer atomsBounded, clausesBounded, fits⟩
  refine ⟨numbered, numberedReads, sameCount, listed, rfl, names, fun comment =>
    ⟨_, wellFormed.toDimacs_eq_ok comment, ?_⟩⟩
  rw [NumberedClauses.read_text_eq_ok_iff wellFormed.inRange_numbered,
    indexed.numbered_eq names]
  exact ⟨readable, rfl⟩

/-- Names of which none repeats are all registered, so a text that announces as many
atoms is read. -/
theorem exists_ofDimacs_eq_ok
    {text : String}
    {atoms : List Atom}
    (nodup : atoms.Nodup)
    {numbered : NumberedClauses}
    (reads : NumberedClauses.read text = .ok numbered)
    (sameCount : numbered.atomCount = atoms.length) :
    ∃ formula, ofDimacs text atoms = .ok formula := by
  have inRange := (NumberedClauses.read_eq_ok_iff_lists.mp reads).inRange
  have named : ∃ named,
      List.Forall₂ (List.Forall₂ (NumberNames (ofAtoms atoms).atoms))
        numbered.clauses named := by
    refine exists_forall₂ fun numbers numbersMem =>
      exists_forall₂ fun number member => ?_
    obtain ⟨nonzero, bounded⟩ := inRange numbers numbersMem number member
    have inAtoms : number.natAbs ≤ (ofAtoms atoms).atoms.length := by
      rw [ofAtoms_eq_of_nodup nodup]
      exact sameCount ▸ bounded
    obtain ⟨literal, denotes⟩ := exists_literalOf_iff.mpr
      ⟨Int.natAbs_pos.mpr nonzero, inAtoms⟩
    exact ⟨literal, literalOf_eq_ok_iff_numberNames.mp denotes⟩
  obtain ⟨named, names⟩ := named
  exact ⟨_, ofDimacs_eq_ok_iff.mpr
    ⟨numbered, reads, sameCount, named, names, rfl⟩⟩

/-- What is read from a text and a list of names is what the numbers of the text say
when they have the distinct names, in the order of their first appearance.  They
have the names of the list itself, and keep them in every text that is written,
exactly when no name repeats.  If none does, a text that announces as many atoms
as there are names is read. -/
theorem ofDimacs_namedBy_iff_nodup
    (text : String)
    (atoms : List Atom) :
    (∀ formula, ofDimacs text atoms = .ok formula →
      ∃ numbered, NumberedClauses.read text = .ok numbered ∧
        numbered.atomCount = atoms.length ∧
        FirstAppearances formula.atoms atoms ∧
        formula.NamedBy formula.atoms
          { numbered with atomCount := formula.atoms.length } ∧
        (formula.NamedBy atoms numbered ↔ atoms.Nodup)) ∧
    (atoms.Nodup → ∀ numbered, NumberedClauses.read text = .ok numbered →
      numbered.atomCount = atoms.length →
      ∃ formula, ofDimacs text atoms = .ok formula) := by
  refine ⟨fun formula reads => ?_, fun nodup _ numberedReads sameCount =>
    exists_ofDimacs_eq_ok nodup numberedReads sameCount⟩
  obtain ⟨numbered, numberedReads, sameCount, listed, named⟩ :=
    namedBy_atoms_of_ofDimacs reads
  refine ⟨numbered, numberedReads, sameCount, listed, named, ?_, ?_⟩
  · intro ownNames
    exact ownNames.sameAtoms ▸ listed.nodup
  · intro nodup
    obtain ⟨_, _, _, _, _, rfl⟩ := ofDimacs_eq_ok_iff.mp reads
    simp only [ofAtoms_eq_of_nodup nodup, ← sameCount] at named ⊢
    exact named

/-- Two order atoms, one of a negative bound, and a selector between them name the
numbers of three clauses, one of them empty, that are laid out across lines. -/
theorem ofDimacs_namedBy_iff_nodup_signs :
    let atoms := [Atom.order "x" (-1), .selector 0 1, .order "y" 2]
    let text := "p cnf 3 3\n-2 1 0\n0 3\n-3 0"
    ∃ formula, ofDimacs text atoms = .ok formula ∧ formula.NamedBy atoms
      { atomCount := 3, clauses := [[-2, 1], [], [3, -3]] } := by
  intro atoms text
  have nodup : atoms.Nodup := by decide
  have numberedReads : NumberedClauses.read text = .ok
      { atomCount := 3, clauses := [[-2, 1], [], [3, -3]] } := by decide
  obtain ⟨names, succeeds⟩ := ofDimacs_namedBy_iff_nodup text atoms
  obtain ⟨formula, reads⟩ := succeeds nodup _ numberedReads rfl
  obtain ⟨numbered, same, _, _, _, named⟩ := names formula reads
  obtain rfl := Except.ok.inj (numberedReads.symm.trans same)
  exact ⟨formula, reads, named.mpr nodup⟩

/-- The second of two equal names is not registered, so its number silently takes
the name after it. -/
theorem not_namedBy_repeated_name :
    let atoms := [Atom.order "x" 0, .order "x" 0, .order "y" 1]
    let text := "p cnf 3 1\n1 2 0\n"
    let numbered : NumberedClauses := { atomCount := 3, clauses := [[1, 2]] }
    ∃ formula, ofDimacs text atoms = .ok formula ∧
      formula =
        { atoms := [.order "x" 0, .order "y" 1]
          clauses := [[⟨true, .order "x" 0⟩, ⟨true, .order "y" 1⟩]] } ∧
      NumberedClauses.read text = .ok numbered ∧
      formula.atoms ≠ atoms ∧
      ¬List.Forall₂ (List.Forall₂ (NumberNames atoms))
        numbered.clauses formula.clauses ∧
      ∃ written, formula.toDimacs "" = .ok written ∧
        NumberedClauses.read written ≠ .ok numbered := by
  refine ⟨_, by decide, rfl, by decide, by decide, ?_, _, rfl, by decide⟩
  rintro (_ | ⟨_ | ⟨_, _ | ⟨second, _⟩⟩, _⟩)
  obtain ⟨position, size, found, _⟩ := second
  obtain rfl : position = 1 := by omega
  contradiction

end Formula
end OrderEncoding
