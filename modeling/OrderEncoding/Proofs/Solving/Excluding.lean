import OrderEncoding.Proofs.Encoding.Models
import OrderEncoding.Proofs.Formula.Blocking
import OrderEncoding.Proofs.Solving.Replies

/-!
# Excluding reported solutions

A session that works through the solutions of a problem reports the solution
that a model stands for, and excludes the model.  Every model of the problem's
formula that has been excluded stands for a reported solution, so nothing is
lost as long as only models are taken up.
-/

namespace OrderEncoding

namespace Problem

/-- A solution of a problem: the values of its variables, within their domains,
that satisfy all clauses. -/
def Solves (problem : Problem) (solution : Solution) : Prop :=
  ∃ value, problem.Inside value ∧ problem.eval value = true ∧
    problem.solutionOf value = solution

end Problem

namespace Session

open Problem (eval_formula_iff_describes)

variable {σ : Type}

/-- What holds of a session that works through the solutions of a problem, and of
the solutions that were reported. -/
structure Excluding
    (problem : Problem)
    (settings : Settings)
    (session : Session σ)
    (reported : List Solution) : Prop where
  sameProblem : session.problem = problem
  sameSettings : session.settings = settings
  sameAtoms : session.formula.atoms = problem.formula.atoms
  wellFormed : session.formula.WellFormed
  /-- Only models of the problem's formula are left. -/
  narrower : ∀ truth, session.formula.eval truth = true →
    problem.formula.eval truth = true
  /-- The solution of every excluded model was reported. -/
  covered : ∀ truth value, problem.Describes problem.formula truth value →
    session.formula.eval truth = false → problem.solutionOf value ∈ reported
  sound : ∀ solution ∈ reported, problem.Solves solution

/-- The session that is started for a problem. -/
def fresh
    (problem : Problem)
    (settings : Settings)
    (memory : σ)
    (files : Files) : Session σ :=
  { problem
    settings
    formula := problem.formula
    memory
    files
    events := problem.encodingEvents problem.formula }

theorem start_eq_ok
    (problem : Problem)
    (settings : Settings)
    (memory : σ)
    (files : Files) :
    start problem settings memory files =
      .ok (fresh problem settings memory files) := by
  rw [start, problem.encode_eq_ok]
  rfl

theorem eq_fresh_of_start
    {problem : Problem}
    {settings : Settings}
    {memory : σ}
    {files : Files}
    {session : Session σ}
    (started : start problem settings memory files = .ok session) :
    session = fresh problem settings memory files := by
  rw [start_eq_ok, Except.ok.injEq] at started
  exact started.symm

/-- A fresh session has excluded nothing. -/
theorem excluding_fresh
    {problem : Problem}
    (wellFormed : problem.WellFormed)
    (settings : Settings)
    (memory : σ)
    (files : Files) :
    Excluding problem settings (fresh problem settings memory files) [] := by
  refine ⟨rfl, rfl, rfl, problem.wellFormed_formula, fun truth holds => holds,
    ?_, by simp⟩
  intro truth value describes excluded
  rw [fresh, (eval_formula_iff_describes wellFormed truth).mpr
    ⟨value, describes⟩] at excluded
  contradiction

/-- Asking a backend excludes nothing. -/
theorem Excluding.of_alike
    {problem : Problem}
    {settings : Settings}
    {session asked : Session σ}
    {reported : List Solution}
    (excluding : Excluding problem settings session reported)
    (alike : asked.Alike session) :
    Excluding problem settings asked reported := by
  obtain ⟨sameProblem, sameSettings, sameAtoms, wellFormed, narrower, covered,
    sound⟩ := excluding
  rw [← alike.formula] at sameAtoms wellFormed narrower covered
  exact ⟨alike.problem.trans sameProblem, alike.settings.trans sameSettings,
    sameAtoms, wellFormed, narrower, covered, sound⟩

/-- Once no model is left, the solutions of the problem are the reported ones. -/
theorem Excluding.mem_reported_iff
    {problem : Problem}
    {settings : Settings}
    {session : Session σ}
    {reported : List Solution}
    (excluding : Excluding problem settings session reported)
    (noneLeft : ∀ truth, session.formula.eval truth = false)
    (solution : Solution) :
    solution ∈ reported ↔ problem.Solves solution := by
  refine ⟨excluding.sound solution, ?_⟩
  rintro ⟨value, inside, holds, rfl⟩
  exact excluding.covered _ value
    (Problem.describes_truthOf inside holds problem.formula) (noneLeft _)

/-! ## Models that are left -/

/-- A model that is left describes a solution, which its full model is decoded
to. -/
theorem Excluding.exists_decode
    {problem : Problem}
    (wellFormed : problem.WellFormed)
    {settings : Settings}
    {session : Session σ}
    {reported : List Solution}
    (excluding : Excluding problem settings session reported)
    {truth : Atom → Bool}
    (holds : session.formula.eval truth = true)
    {numbers : List Int}
    (same : numbers.Perm (session.formula.signedModel truth)) :
    ∃ value, problem.Describes problem.formula truth value ∧
      problem.decode session.formula numbers = .ok (problem.solutionOf value) := by
  obtain ⟨value, describes⟩ := (eval_formula_iff_describes wellFormed truth).mp
    (excluding.narrower truth holds)
  obtain ⟨literals, denoted, perm⟩ := Formula.exists_mapM_literalOf same
  refine ⟨value, describes, describes.decode_eq_ok wellFormed denoted ?_⟩
  intro literal
  rw [perm.mem_iff, Formula.trueLiterals, excluding.sameAtoms,
    Formula.trueLiterals]

/-- A session after the model of its last answer was excluded by a clause. -/
def blocked (session : Session σ) (clause : Clause) : Session σ :=
  { { session with lastModel := none }.tell
      (.trace ("blocking clause of " ++ Numeral.ofNat clause.length ++
        " literals")) with
    formula := session.formula.withClause clause }

/-- The last model is excluded by its blocking clause. -/
theorem blockLastModel_eq_done
    {session : Session σ}
    (wellFormed : session.formula.WellFormed)
    {numbers : List Int}
    (last : session.lastModel = some numbers)
    {clause : Clause}
    (made : blockingClause session.settings.blocking session.formula numbers =
      .ok clause)
    (registered : ∀ literal ∈ clause, literal.atom ∈ session.formula.atoms) :
    session.blockLastModel = (session.blocked clause).done () := by
  have added := wellFormed.addRegisteredClause_eq_ok registered
  simp only [blockLastModel, last, made, added]
  rfl

/-- A last model that denotes literals is excluded by its blocking clause, over
registered atoms. -/
theorem exists_blockLastModel
    {session : Session σ}
    (wellFormed : session.formula.WellFormed)
    {numbers : List Int}
    (last : session.lastModel = some numbers)
    {literals : List Literal}
    (denoted : numbers.mapM session.formula.literalOf = .ok literals) :
    ∃ clause, blockingClause session.settings.blocking session.formula numbers =
        .ok clause ∧
      (∀ literal ∈ clause, literal.atom ∈ session.formula.atoms) ∧
      session.blockLastModel = (session.blocked clause).done () := by
  have made : blockingClause session.settings.blocking session.formula numbers =
      .ok ((literals.filter (blocks session.settings.blocking)).map
        Literal.negated) :=
    Results.map_eq_ok_iff.mpr ⟨literals, denoted, rfl⟩
  have registered := (Formula.blocks_of_blockingClause made).registered
  exact ⟨_, made, registered,
    blockLastModel_eq_done wellFormed last made registered⟩

/-- Blocking the last model leaves a session without one, and with a clause more
if there was one. -/
theorem eq_or_eq_blocked_of_blockLastModel
    {session blocked : Session σ}
    (blocks : session.blockLastModel = blocked.done ()) :
    session.lastModel = none ∧ blocked = session ∨
      ∃ clause, blocked = session.blocked clause := by
  cases last : session.lastModel with
  | none =>
      simp only [blockLastModel, last] at blocks
      exact .inl ⟨rfl, (congrArg Step.session blocks).symm⟩
  | some numbers =>
      simp only [blockLastModel, last] at blocks
      split at blocks
      next => cases blocks
      next clause made =>
        split at blocks
        next => cases blocks
        next formula added =>
          obtain ⟨_, _, extended⟩ := Results.bind_eq_ok_iff.mp added
          obtain rfl := Except.ok.inj extended
          exact .inr ⟨clause, (congrArg Step.session blocks).symm⟩

/-- A model that gave a solution is excluded by its blocking clause. -/
theorem Replies.exists_blockLastModel
    {backend : Backend σ}
    {session : Session σ}
    (wellFormed : session.formula.WellFormed)
    {call : BackendCall σ}
    {numbers : List Int}
    (replies : Replies backend session call (.model numbers))
    {solution : Solution}
    (answered : (session.solve backend).result = .ok (.satisfiable solution)) :
    ∃ clause, blockingClause session.settings.blocking session.formula numbers =
        .ok clause ∧
      (session.solve backend).session.blockLastModel =
        ((session.solve backend).session.blocked clause).done () := by
  obtain ⟨decodes, _, last⟩ := replies.decodes answered
  obtain ⟨literals, denoted, _⟩ := Results.bind_eq_ok_iff.mp decodes
  have alike := session.solve_alike backend
  rw [← alike.formula] at wellFormed denoted
  obtain ⟨clause, made, _, blocksBy⟩ :=
    Session.exists_blockLastModel wellFormed last denoted
  rw [alike.settings, alike.formula] at made
  exact ⟨clause, made, blocksBy⟩

/-- Excluding a model whose solution is reported loses no other solution. -/
theorem Excluding.exclude
    {problem : Problem}
    (wellFormed : problem.WellFormed)
    {settings : Settings}
    {session : Session σ}
    {reported : List Solution}
    (excluding : Excluding problem settings session reported)
    {truth : Atom → Bool}
    {value : String → Int}
    (describes : problem.Describes problem.formula truth value)
    {clause : Clause}
    (excludes : session.formula.Excludes settings.blocking truth clause)
    {next : List Solution}
    (mem_next : ∀ solution, solution ∈ next ↔
      solution ∈ reported ∨ solution = problem.solutionOf value) :
    Excluding problem settings (session.blocked clause) next := by
  constructor
  case sameProblem => exact excluding.sameProblem
  case sameSettings => exact excluding.sameSettings
  case sameAtoms => exact excluding.sameAtoms
  case wellFormed => exact excluding.wellFormed.withClause excludes.registered
  case narrower =>
    intro other otherHolds
    rw [blocked, Formula.eval_withClause, Bool.and_eq_true] at otherHolds
    exact excluding.narrower other otherHolds.1
  case covered =>
    intro other otherValue otherDescribes otherExcluded
    rw [blocked, Formula.eval_withClause, Bool.and_eq_false_iff]
      at otherExcluded
    rw [mem_next]
    rcases otherExcluded with before | now
    · exact .inl (excluding.covered other otherValue otherDescribes before)
    · refine .inr (otherDescribes.solutionOf_congr wellFormed describes ?_)
      intro name bound registered
      by_contra different
      have clauseHolds := (excludes.eval_iff other).mpr
        ⟨_, excluding.sameAtoms ▸ registered, .inr rfl, different⟩
      rw [now] at clauseHolds
      contradiction
  case sound =>
    intro solution member
    rcases (mem_next solution).mp member with old | rfl
    · exact excluding.sound solution old
    · exact ⟨value, describes.inside, describes.eval_eq_true, rfl⟩

/-! ## Solutions that are reported -/

/-- What is reported for a solution after some were found: nothing, if it is one
of them. -/
def news (found : List Solution) (solution : Solution) : List Solution :=
  if solution ∈ found then [] else [solution]

theorem append_news
    (found : List Solution)
    (solution : Solution) :
    (if solution ∈ found then found else found ++ [solution]) =
      found ++ news found solution := by
  unfold news
  split
  next old => exact (List.append_nil found).symm
  next new => rfl

theorem mem_append_news
    {found reported : List Solution}
    (subset : ∀ solution ∈ found, solution ∈ reported)
    {solution other : Solution} :
    other ∈ reported ++ news found solution ↔
      other ∈ reported ∨ other = solution := by
  rw [List.mem_append, news]
  split
  next old =>
    refine ⟨fun either => either.elim .inl nofun, fun either => .inl ?_⟩
    exact either.elim id fun same => same ▸ subset solution old
  next new => rw [List.mem_singleton]

/-- News of a solution that was not reported repeat nothing. -/
theorem nodup_append_news
    {found reported : List Solution}
    (nodup : reported.Nodup)
    {solution : Solution}
    (unseen : solution ∈ reported → solution ∈ found) :
    (reported ++ news found solution).Nodup := by
  unfold news
  split
  next old => simpa using nodup
  next new =>
    refine nodup.append (List.nodup_singleton _) ?_
    rw [List.disjoint_singleton]
    exact fun old => new (unseen old)

theorem length_append_news_le
    (found : List Solution)
    (solution : Solution) :
    (found ++ news found solution).length ≤ found.length + 1 := by
  rw [List.length_append, news]
  split
  next => exact Nat.le_succ _
  next => exact Nat.le_refl _

end Session
end OrderEncoding
