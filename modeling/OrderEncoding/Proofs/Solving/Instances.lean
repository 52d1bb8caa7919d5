import OrderEncoding.Proofs.Dimacs.RoundTrip
import OrderEncoding.Proofs.Solving.Histories

/-!
# The formula over the history of a session

Whatever a backend answers, the formula of a session keeps the atoms of its
problem's encoding, and grows by one clause for each model that an enumeration
takes up: the clause that blocks the model.  A backend is always called with the
text of this formula at the input, and the text gives the formula back.
-/

namespace OrderEncoding
namespace Session

variable {σ : Type}

/-- What holds of the formula at every point in the history of a session that
begins with some formula. -/
structure Grown
    (base : Formula)
    (settings : Settings)
    (point : Point σ) : Prop where
  sameSettings : point.session.settings = settings
  sameAtoms : point.session.formula.atoms = base.atoms
  wellFormed : point.session.formula.WellFormed
  /-- One clause was added for each model that was taken up. -/
  clauses : ∃ added,
    point.session.formula.clauses = base.clauses ++ added ∧
    List.Forall₂ (base.Blocks settings.blocking) point.taken added

theorem grown_begin
    (session : Session σ)
    (wellFormed : session.formula.WellFormed)
    (activity : Activity)
    (reported : List Solution) :
    Grown session.formula session.settings ⟨session, activity, reported, []⟩ :=
  ⟨rfl, rfl, wellFormed, [], (List.append_nil _).symm, .nil⟩

theorem grown_fresh
    (problem : Problem)
    (settings : Settings)
    (memory : σ)
    (files : Files) :
    Grown problem.formula settings
      { session := fresh problem settings memory files } :=
  grown_begin (fresh problem settings memory files) problem.wellFormed_formula
    .idle []

/-- As long as the formula stays the same, no model may be taken up. -/
theorem Grown.of_alike
    {base : Formula}
    {settings : Settings}
    {session next : Session σ}
    {activity nextActivity : Activity}
    {reported nextReported : List Solution}
    {taken : List (List Int)}
    (grown : Grown base settings ⟨session, activity, reported, taken⟩)
    (alike : next.Alike session) :
    Grown base settings ⟨next, nextActivity, nextReported, taken⟩ := by
  obtain ⟨sameSettings, sameAtoms, wellFormed, clauses⟩ := grown
  dsimp only at sameSettings sameAtoms wellFormed clauses
  rw [← alike.formula] at sameAtoms wellFormed clauses
  exact ⟨alike.settings.trans sameSettings, sameAtoms, wellFormed, clauses⟩

/-- A model that is taken up is blocked by one more clause. -/
theorem Grown.block
    {base : Formula}
    {settings : Settings}
    {session : Session σ}
    {activity nextActivity : Activity}
    {reported nextReported : List Solution}
    {taken : List (List Int)}
    (grown : Grown base settings ⟨session, activity, reported, taken⟩)
    {asked : Session σ}
    (alike : asked.Alike session)
    {numbers : List Int}
    {clause : Clause}
    (made : blockingClause session.settings.blocking session.formula numbers =
      .ok clause) :
    Grown base settings ⟨asked.blocked clause, nextActivity, nextReported,
      taken ++ [numbers]⟩ := by
  obtain ⟨sameSettings, sameAtoms, wellFormed, added, clauses, blocked⟩ := grown
  dsimp only at sameSettings sameAtoms wellFormed clauses
  have blocks := Formula.blocks_of_blockingClause made
  have registered := blocks.registered
  rw [sameSettings] at blocks
  have extended : (asked.blocked clause).formula =
      session.formula.withClause clause := alike.formula ▸ rfl
  refine ⟨alike.settings.trans sameSettings, ?_, ?_, added ++ [clause], ?_,
    List.rel_append blocked (.cons (blocks.congr sameAtoms) .nil)⟩
  · rw [extended]
    exact sameAtoms
  · rw [extended]
    exact wellFormed.withClause registered
  · rw [extended, ← List.append_assoc, ← clauses]
    rfl

/-- Every step in a history keeps what holds of the formula. -/
theorem Grown.follows
    {base : Formula}
    {settings : Settings}
    {backend : Backend σ}
    {asks : Session σ → Prop}
    {point next : Point σ}
    (grown : Grown base settings point)
    (follows : Follows backend asks point next) :
    Grown base settings next := by
  cases follows with
  | solve => exact grown.of_alike (solve_alike backend _)
  | exportFormula => exact grown.of_alike (exportFormula_kept _).toAlike
  | begin => exact grown.of_alike ⟨rfl, rfl, rfl⟩
  | stop => exact grown.of_alike (finish_kept _ _ _).toAlike
  | fail => exact grown.of_alike (solve_alike backend _)
  | exhaust =>
      exact grown.of_alike
        ((finish_kept _ _ _).toAlike.trans (solve_alike backend _))
  | round goesOn asked answered replies blocks =>
      obtain ⟨clause, made, blocksBy⟩ :=
        replies.exists_blockLastModel grown.wellFormed answered
      obtain rfl := congrArg Step.session (blocks.symm.trans blocksBy)
      exact grown.block (solve_alike backend _) made
  | unblocked goesOn asked answered replies fails =>
      obtain ⟨clause, made, blocksBy⟩ :=
        replies.exists_blockLastModel grown.wellFormed answered
      cases fails.symm.trans blocksBy

theorem Grown.leads
    {base : Formula}
    {settings : Settings}
    {backend : Backend σ}
    {asks : Session σ → Prop}
    {point next : Point σ}
    (grown : Grown base settings point)
    (leads : Leads backend asks point next) :
    Grown base settings next := by
  induction leads with
  | refl => exact grown
  | tail _ follows inductionHypothesis => exact inductionHypothesis.follows follows

end Session

namespace Problem

end Problem
end OrderEncoding
