import OrderEncoding.Proofs.Solving.Histories

/-!
# Solutions over the history of a session

As long as a backend fails or answers right, no solution is lost: over the whole
history of a session, through limits, failures and repeated enumerations, the
models that are excluded are those of reported solutions.  When solutions alone
are blocked, no solution is reported twice.
-/

namespace OrderEncoding
namespace Session

variable {σ : Type}

/-- What holds of the reported solutions at every point in the history of a
session. -/
structure Covering
    (problem : Problem)
    (settings : Settings)
    (point : Point σ) : Prop where
  excluding : Excluding problem settings point.session point.reported
  /-- What the current enumeration has found was reported. -/
  foundReported : ∀ found calls, point.activity = .seeking found calls →
    ∀ solution ∈ found, solution ∈ point.reported
  noneLeft : point.session.status = .unsatisfiable →
    ∀ truth, point.session.formula.eval truth = false
  /-- When solutions alone are blocked, the models of the reported ones are
  excluded. -/
  excluded : settings.blocking = .projected →
    ∀ truth value, problem.Describes problem.formula truth value →
      problem.solutionOf value ∈ point.reported →
      point.session.formula.eval truth = false
  nodup : settings.blocking = .projected → point.reported.Nodup

theorem covering_fresh
    {problem : Problem}
    (wellFormed : problem.WellFormed)
    (settings : Settings)
    (memory : σ)
    (files : Files) :
    Covering problem settings
      { session := fresh problem settings memory files } := by
  constructor
  case excluding => exact excluding_fresh wellFormed settings memory files
  case foundReported => exact nofun
  case noneLeft => exact nofun
  case excluded => exact fun _ _ _ _ => nofun
  case nodup => exact fun _ => List.nodup_nil

/-- As long as nothing is reported or excluded, as much is covered as before. -/
theorem Covering.of_alike
    {problem : Problem}
    {settings : Settings}
    {session next : Session σ}
    {activity nextActivity : Activity}
    {reported : List Solution}
    {taken nextTaken : List (List Int)}
    (covering : Covering problem settings ⟨session, activity, reported, taken⟩)
    (alike : next.Alike session)
    (foundReported : ∀ found calls, nextActivity = .seeking found calls →
      ∀ solution ∈ found, solution ∈ reported)
    (noneLeft : next.status = .unsatisfiable →
      ∀ truth, session.formula.eval truth = false) :
    Covering problem settings ⟨next, nextActivity, reported, nextTaken⟩ := by
  obtain ⟨excluding, _, _, excluded, nodup⟩ := covering
  dsimp only at excluding excluded nodup
  rw [← alike.formula] at noneLeft excluded
  exact ⟨excluding.of_alike alike, foundReported, noneLeft, excluded, nodup⟩

/-- A question covers no less and no more, and says rightly that no model is
left. -/
theorem Covering.solve
    {problem : Problem}
    {settings : Settings}
    {session : Session σ}
    {activity : Activity}
    {reported : List Solution}
    {taken : List (List Int)}
    (covering : Covering problem settings ⟨session, activity, reported, taken⟩)
    {backend : Backend σ}
    (asked : FailsOrAnswers backend session) :
    Covering problem settings
      ⟨(session.solve backend).session, .idle, reported, taken⟩ := by
  refine covering.of_alike (session.solve_alike backend) nofun ?_
  intro unsatisfiable
  cases session.solved_solve backend with
  | failed failure result kept =>
      exact covering.noneLeft (kept.status.symm.trans unsatisfiable)
  | exhausted call replies result =>
      exact asked.noneLeft covering.excluding.wellFormed result
  | found call numbers solution replies decodes result alike memory status =>
      exact nomatch status.symm.trans unsatisfiable

/-- A round covers the solution that it reports. -/
theorem Covering.round
    {problem : Problem}
    (wellFormed : problem.WellFormed)
    {settings : Settings}
    {session : Session σ}
    {found : List Solution}
    {calls : Nat}
    {reported : List Solution}
    {taken : List (List Int)}
    (covering : Covering problem settings
      ⟨session, .seeking found calls, reported, taken⟩)
    {backend : Backend σ}
    (asked : FailsOrAnswers backend session)
    {solution : Solution}
    (answered : (session.solve backend).result = .ok (.satisfiable solution))
    {call : BackendCall σ}
    {numbers : List Int}
    (replies : Replies backend session call (.model numbers))
    {clause : Clause}
    (made : blockingClause session.settings.blocking session.formula numbers =
      .ok clause) :
    Covering problem settings
      ⟨(session.solve backend).session.blocked clause,
        .seeking (found ++ news found solution) (calls + 1),
        reported ++ news found solution, taken ++ [numbers]⟩ := by
  obtain ⟨excluding, foundReported, _, excluded, nodup⟩ := covering
  dsimp only at excluding excluded nodup
  have subset := foundReported found calls rfl
  have alike := session.solve_alike backend
  obtain ⟨decodes, satisfiable, _⟩ := replies.decodes answered
  obtain ⟨truth, holds, same⟩ :=
    excluding.wellFormed.model_numbered_iff.mp (asked.answers answered replies)
  obtain ⟨value, describes, decodesValue⟩ :=
    excluding.exists_decode wellFormed holds same
  obtain rfl : problem.solutionOf value = solution := by
    rw [excluding.sameProblem, decodesValue] at decodes
    exact Except.ok.inj decodes
  obtain ⟨_, madeAgain, excludes⟩ :=
    Formula.exists_blockingClause same session.settings.blocking
  cases made.symm.trans madeAgain
  rw [excluding.sameSettings, ← alike.formula] at excludes
  have mem_next : ∀ other, other ∈ reported ++
      news found (problem.solutionOf value) ↔
        other ∈ reported ∨ other = problem.solutionOf value :=
    fun other => mem_append_news subset
  constructor
  case excluding =>
    exact (excluding.of_alike alike).exclude wellFormed describes excludes mem_next
  case foundReported =>
    rintro _ _ ⟨⟩ other member
    rw [mem_append_news fun _ => id] at member
    exact (mem_next other).mpr (member.imp (subset other) id)
  case noneLeft =>
    exact fun unsatisfiable => nomatch satisfiable.symm.trans unsatisfiable
  case excluded =>
    intro projected other otherValue otherDescribes member
    rw [blocked, Formula.eval_withClause, alike.formula, Bool.and_eq_false_iff]
    rcases (mem_next _).mp member with old | same
    · exact .inl (excluded projected other otherValue otherDescribes old)
    · refine .inr (excludes.eval_eq_false projected fun name bound registered => ?_)
      rw [alike.formula, excluding.sameAtoms] at registered
      exact otherDescribes.order_congr wellFormed describes same registered
  case nodup =>
    intro projected
    refine nodup_append_news (nodup projected) fun old => ?_
    have gone := excluded projected truth value describes old
    rw [holds] at gone
    contradiction

/-- Every step in a history keeps what holds of the reported solutions. -/
theorem Covering.follows
    {problem : Problem}
    (wellFormed : problem.WellFormed)
    {settings : Settings}
    {backend : Backend σ}
    {point next : Point σ}
    (covering : Covering problem settings point)
    (follows : Follows backend (FailsOrAnswers backend) point next) :
    Covering problem settings next := by
  cases follows with
  | solve asked => exact covering.solve asked
  | @exportFormula session =>
      have kept := session.exportFormula_kept
      exact covering.of_alike kept.toAlike nofun fun unsatisfiable =>
        covering.noneLeft (kept.status.symm.trans unsatisfiable)
  | begin =>
      refine covering.of_alike ⟨rfl, rfl, rfl⟩ ?_ covering.noneLeft
      rintro _ _ ⟨⟩ solution member
      contradiction
  | stop =>
      exact covering.of_alike (finish_kept _ _ _).toAlike nofun covering.noneLeft
  | fail goesOn asked => exact covering.solve asked
  | exhaust goesOn asked =>
      have asking := covering.solve asked
      exact asking.of_alike (finish_kept _ _ _).toAlike nofun asking.noneLeft
  | round goesOn asked answered replies blocks =>
      obtain ⟨clause, made, blocksBy⟩ :=
        replies.exists_blockLastModel covering.excluding.wellFormed answered
      obtain rfl := congrArg Step.session (blocks.symm.trans blocksBy)
      exact covering.round wellFormed asked answered replies made
  | unblocked goesOn asked answered replies fails =>
      obtain ⟨clause, made, blocksBy⟩ :=
        replies.exists_blockLastModel covering.excluding.wellFormed answered
      cases fails.symm.trans blocksBy

theorem Covering.leads
    {problem : Problem}
    (wellFormed : problem.WellFormed)
    {settings : Settings}
    {backend : Backend σ}
    {point next : Point σ}
    (covering : Covering problem settings point)
    (leads : Leads backend (FailsOrAnswers backend) point next) :
    Covering problem settings next := by
  induction leads with
  | refl => exact covering
  | tail _ follows inductionHypothesis =>
      exact inductionHypothesis.follows wellFormed follows

end Session

namespace Problem

/-- At every point in the history of a session whose backend fails or answers
right, a model of the problem's encoding is left if its solution was not
reported.  So when it is answered that no model is left, and from then on, the
solutions of the problem are the reported ones; and when solutions alone are
blocked, none is reported twice.  The verdict that such a backend leaves is the one
that the session takes up, and an enumeration with it is a stretch of the history,
which adds its report to what was reported. -/
theorem coverage_over_history
    {text : String}
    {problem : Problem}
    (accepted : Problem.read text = .ok problem)
    (settings : Settings)
    {σ : Type}
    (memory : σ)
    (files : Files)
    (backend : Backend σ) :
    ∃ formula session, problem.encode = .ok formula ∧
      Session.start problem settings memory files = .ok session ∧
      ∀ point, Session.Leads backend (Session.FailsOrAnswers backend) { session }
          point →
        (∀ truth solution, formula.eval truth = true →
          problem.decode formula (formula.signedModel truth) = .ok solution →
          solution ∉ point.reported →
          point.session.formula.eval truth = true) ∧
        (Session.FailsOrAnswers backend point.session ∧
            (point.session.solve backend).result = .ok .unsatisfiable ∨
            point.session.status = .unsatisfiable →
          ∀ solution, solution ∈ point.reported ↔
            ∃ value, problem.Inside value ∧ problem.eval value = true ∧
              problem.solutionOf value = solution) ∧
        (settings.blocking = .projected → point.reported.Nodup) ∧
        (∀ call verdict, Session.Replies backend point.session call verdict →
          ∃ asked, point.session.solve backend =
            Session.accept asked verdict ∧ asked.Kept point.session) ∧
        (point.activity = .idle → ∀ rounds enumeration,
          point.session.enumerate backend rounds = some enumeration →
          (∀ taken last, Session.Rounds backend point.session [] taken last →
            Session.FailsOrAnswers backend last) →
          ∃ models, Session.Leads backend (Session.FailsOrAnswers backend) point
            ⟨enumeration.session, .idle,
              point.reported ++ enumeration.reported,
              point.taken ++ models⟩) := by
  have wellFormed := wellFormed_of_read accepted
  refine ⟨problem.formula, _, problem.encode_eq_ok,
    Session.start_eq_ok problem settings memory files, ?_⟩
  intro point leads
  obtain ⟨excluding, _, noneLeft, _, nodup⟩ :=
    (Session.covering_fresh wellFormed settings memory files).leads wellFormed
      leads
  refine ⟨?_, ?_, nodup, fun call verdict replies => replies.exists_accept,
    fun idle rounds enumeration => point.leads_enumerate idle⟩
  · intro truth solution holds decodes unreported
    obtain ⟨value, describes⟩ :=
      (eval_formula_iff_describes wellFormed truth).mp holds
    rw [describes.decode_signedModel wellFormed, Except.ok.injEq] at decodes
    by_contra excluded
    exact unreported (decodes ▸ excluding.covered truth value describes
      (Bool.eq_false_iff.mpr excluded))
  · rintro (⟨asked, answered⟩ | unsatisfiable)
    · exact excluding.mem_reported_iff
        (asked.noneLeft excluding.wellFormed answered)
    · exact excluding.mem_reported_iff (noneLeft unsatisfiable)

/-- The built-in search answers right about a problem in two variables, and the
history of a whole enumeration reports each of its solutions once. -/
theorem coverage_over_history_two_variables :
    Problem.read "x 0 1 y 0 1 [x+y<=1 -(x!=1)]" = .ok twoVariables ∧
      ∃ session, Session.start twoVariables
          { program := "search", input := "in", output := "out"
            blocking := .projected } () {} = .ok session ∧
        ∃ point,
          Session.Leads (Search.backend false)
            (Session.FailsOrAnswers (Search.backend false)) { session } point ∧
          point.session.status = .unsatisfiable ∧
          (∀ solution, solution ∈ point.reported ↔
            ∃ value, twoVariables.Inside value ∧
              twoVariables.eval value = true ∧
              twoVariables.solutionOf value = solution) ∧
          point.reported.Nodup := by
  let settings : Settings :=
    { program := "search", input := "in", output := "out"
      blocking := .projected }
  have usable : Files.Usable {} settings.input settings.output := usable_in_out
  have wellFormed := wellFormed_of_read read_twoVariables
  obtain ⟨formula, session, encodes, started, history⟩ := coverage_over_history
    read_twoVariables settings () {} (Search.backend false)
  have enumerating :=
    Session.enumerating_start wellFormed settings () usable started
  obtain ⟨point, leads, status⟩ := enumerating.exists_leads wellFormed rfl
    honest_search_twoVariables fun _ _ going =>
      Session.failsOrAnswers_of_honest going.ready going.wellFormed
        (going.honest honest_search_twoVariables) going.bounded
  obtain ⟨_, exact, nodup, _⟩ := history point leads
  exact ⟨read_twoVariables, session, started, point, leads, status,
    exact (.inr status), nodup rfl⟩

end Problem
end OrderEncoding
