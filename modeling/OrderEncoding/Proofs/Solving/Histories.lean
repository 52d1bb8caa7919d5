import Mathlib.Logic.Relation
import OrderEncoding.Proofs.Solving.Rounds

/-!
# Histories of sessions

A session asks its backend once, writes its formula, or enumerates solutions, in
any order and as often as it likes.  A history follows it from round to round of
its enumerations.  It records which solutions were reported while enumerations
went on, and which models enumerations took up.
-/

namespace OrderEncoding
namespace Session

variable {σ : Type}

/-- What a session is doing. -/
inductive Activity where
  | idle
  /-- It enumerates, and has found some solutions in so many calls. -/
  | seeking (found : List Solution) (calls : Nat)

/-- A point in the history of a session. -/
structure Point (σ : Type) where
  session : Session σ
  activity : Activity := .idle
  /-- The solutions that enumerations have reported, in order. -/
  reported : List Solution := []
  /-- The models that enumerations have taken up, in order. -/
  taken : List (List Int) := []

/-- One point follows another in the history of a session.  The backend may be
asked about sessions that satisfy `asks` only. -/
inductive Follows
    (backend : Backend σ)
    (asks : Session σ → Prop) :
    Point σ → Point σ → Prop
  /-- The backend is asked outside of an enumeration. -/
  | solve
      {session : Session σ}
      {reported : List Solution}
      {taken : List (List Int)}
      (asked : asks session) :
      Follows backend asks ⟨session, .idle, reported, taken⟩
        ⟨(session.solve backend).session, .idle, reported, taken⟩
  /-- The formula is written outside of an enumeration. -/
  | exportFormula
      {session : Session σ}
      {reported : List Solution}
      {taken : List (List Int)} :
      Follows backend asks ⟨session, .idle, reported, taken⟩
        ⟨session.exportFormula.session, .idle, reported, taken⟩
  /-- An enumeration begins. -/
  | begin
      {session : Session σ}
      {reported : List Solution}
      {taken : List (List Int)} :
      Follows backend asks ⟨session, .idle, reported, taken⟩
        ⟨session, .seeking [] 0, reported, taken⟩
  /-- An enumeration reaches its limit. -/
  | stop
      {session : Session σ}
      {found : List Solution}
      {calls : Nat}
      {reported : List Solution}
      {taken : List (List Int)}
      (stops : session.settings.stopsAt found.length = true) :
      Follows backend asks ⟨session, .seeking found calls, reported, taken⟩
        ⟨(session.finish found calls).session, .idle, reported, taken⟩
  /-- An enumeration ends with the failure of a question. -/
  | fail
      {session : Session σ}
      {found : List Solution}
      {calls : Nat}
      {reported : List Solution}
      {taken : List (List Int)}
      (goesOn : session.settings.stopsAt found.length = false)
      (asked : asks session)
      {failure : Failure}
      (fails : (session.solve backend).result = .error failure) :
      Follows backend asks ⟨session, .seeking found calls, reported, taken⟩
        ⟨(session.solve backend).session, .idle, reported, taken⟩
  /-- An enumeration learns that no model is left. -/
  | exhaust
      {session : Session σ}
      {found : List Solution}
      {calls : Nat}
      {reported : List Solution}
      {taken : List (List Int)}
      (goesOn : session.settings.stopsAt found.length = false)
      (asked : asks session)
      (answered : (session.solve backend).result = .ok .unsatisfiable) :
      Follows backend asks ⟨session, .seeking found calls, reported, taken⟩
        ⟨((session.solve backend).session.finish found (calls + 1)).session,
          .idle, reported, taken⟩
  /-- An enumeration takes up a model: it reports its solution, unless it has
  found it before, and blocks the model. -/
  | round
      {session : Session σ}
      {found : List Solution}
      {calls : Nat}
      {reported : List Solution}
      {taken : List (List Int)}
      (goesOn : session.settings.stopsAt found.length = false)
      (asked : asks session)
      {solution : Solution}
      (answered : (session.solve backend).result = .ok (.satisfiable solution))
      {call : BackendCall σ}
      {numbers : List Int}
      (replies : Replies backend session call (.model numbers))
      {blocked : Session σ}
      (blocks : (session.solve backend).session.blockLastModel =
        blocked.done ()) :
      Follows backend asks ⟨session, .seeking found calls, reported, taken⟩
        ⟨blocked, .seeking (found ++ news found solution) (calls + 1),
          reported ++ news found solution, taken ++ [numbers]⟩
  /-- An enumeration takes up a model, reports its solution, and ends because
  the model cannot be blocked. -/
  | unblocked
      {session : Session σ}
      {found : List Solution}
      {calls : Nat}
      {reported : List Solution}
      {taken : List (List Int)}
      (goesOn : session.settings.stopsAt found.length = false)
      (asked : asks session)
      {solution : Solution}
      (answered : (session.solve backend).result = .ok (.satisfiable solution))
      {call : BackendCall σ}
      {numbers : List Int}
      (replies : Replies backend session call (.model numbers))
      {failed : Session σ}
      {failure : Failure}
      (fails : (session.solve backend).session.blockLastModel =
        failed.fail failure) :
      Follows backend asks ⟨session, .seeking found calls, reported, taken⟩
        ⟨failed, .idle, reported ++ news found solution, taken ++ [numbers]⟩

/-- Points that come one after another in the history of a session. -/
abbrev Leads (backend : Backend σ) (asks : Session σ → Prop) :
    Point σ → Point σ → Prop :=
  Relation.ReflTransGen (Follows backend asks)

theorem finish_kept
    (session : Session σ)
    (found : List Solution)
    (calls : Nat) :
    (session.finish found calls).session.Kept session :=
  ⟨⟨rfl, rfl, rfl⟩, rfl, rfl⟩

/-- Rounds are steps in the history of a session, if the backend may be asked about
every session that rounds lead to. -/
theorem Rounds.leads
    {backend : Backend σ}
    {asks : Session σ → Prop}
    {session last : Session σ}
    {found : List Solution}
    {taken : List Round}
    (gone : Rounds backend session found taken last)
    (asked : ∀ others other, Rounds backend session found others other →
      asks other)
    (calls : Nat)
    (reported : List Solution)
    (models : List (List Int)) :
    ∃ more, foundAfter found taken = found ++ more ∧
      Leads backend asks
        ⟨session, .seeking found calls, reported, models⟩
        ⟨last, .seeking (foundAfter found taken) (calls + taken.length),
          reported ++ more, models ++ taken.map Round.model⟩ := by
  induction gone generalizing calls reported models with
  | nil =>
      refine ⟨[], (List.append_nil _).symm, ?_⟩
      rw [List.map_nil, List.append_nil, List.append_nil]
      exact .refl
  | @cons session found round goesOn call replies answered blocked blocks rest
      last others inductionHypothesis =>
      obtain ⟨more, adds, leads⟩ := inductionHypothesis
        (fun later other gone =>
          asked _ other (.cons round goesOn replies answered blocks gone))
        (calls + 1) (reported ++ news found round.solution)
        (models ++ [round.model])
      rw [List.append_assoc] at adds
      rw [List.append_assoc, List.append_assoc, Nat.add_right_comm, Nat.add_assoc]
        at leads
      exact ⟨_, adds, leads.head
        (.round goesOn (asked _ _ .nil) answered replies blocks)⟩

/-- The end of an enumeration is a step in the history of its session. -/
theorem Ends.follows
    {backend : Backend σ}
    {asks : Session σ → Prop}
    {last : Session σ}
    {found : List Solution}
    {calls : Nat}
    {enumeration : Enumeration σ}
    (ends : Ends backend last found calls enumeration)
    (asked : asks last)
    (reported : List Solution)
    (models : List (List Int)) :
    ∃ more blocked, enumeration.reported = found ++ more ∧
      Follows backend asks ⟨last, .seeking found calls, reported, models⟩
        ⟨enumeration.session, .idle, reported ++ more, models ++ blocked⟩ := by
  have nothingNew : ∀ next,
      Follows backend asks ⟨last, .seeking found calls, reported, models⟩
        ⟨next, .idle, reported, models⟩ →
      ∃ more blocked, found = found ++ more ∧
        Follows backend asks ⟨last, .seeking found calls, reported, models⟩
          ⟨next, .idle, reported ++ more, models ++ blocked⟩ := by
    intro next follows
    refine ⟨[], [], (List.append_nil found).symm, ?_⟩
    rwa [List.append_nil, List.append_nil]
  cases ends with
  | stopped stops => exact nothingNew _ (.stop stops)
  | failed goesOn fails => exact nothingNew _ (.fail goesOn asked fails)
  | exhausted goesOn answered =>
      exact nothingNew _ (.exhaust goesOn asked answered)
  | unblocked round goesOn replies answered fails =>
      exact ⟨_, _, rfl, .unblocked goesOn asked answered replies fails⟩

/-- An enumeration is a stretch of the history of its session, in which exactly
its solutions are reported. -/
theorem leads_enumerate
    {backend : Backend σ}
    {asks : Session σ → Prop}
    {rounds : Nat}
    {session : Session σ}
    {enumeration : Enumeration σ}
    (enumerates : session.enumerate backend rounds = some enumeration)
    (asked : ∀ taken last, Rounds backend session [] taken last → asks last)
    (reported : List Solution)
    (taken : List (List Int)) :
    ∃ models, Leads backend asks
      ⟨session, .seeking [] 0, reported, taken⟩
      ⟨enumeration.session, .idle, reported ++ enumeration.reported,
        taken ++ models⟩ := by
  obtain ⟨rounds, last, gone, _, ends⟩ := exists_rounds enumerates
  obtain ⟨more, adds, leads⟩ := gone.leads asked 0 reported taken
  obtain ⟨rest, blocked, reports, follows⟩ :=
    ends.follows (asked _ _ gone) (reported ++ more)
      (taken ++ rounds.map Round.model)
  rw [adds, List.nil_append] at reports
  rw [List.append_assoc, List.append_assoc, ← reports] at follows
  exact ⟨_, leads.tail follows⟩

/-- Where nothing else is going on, an enumeration may begin. -/
theorem Point.leads_enumerate
    {backend : Backend σ}
    {asks : Session σ → Prop}
    {rounds : Nat}
    (point : Point σ)
    (idle : point.activity = .idle)
    {enumeration : Enumeration σ}
    (enumerates : point.session.enumerate backend rounds = some enumeration)
    (asked : ∀ taken last, Rounds backend point.session [] taken last →
      asks last) :
    ∃ models, Leads backend asks point
      ⟨enumeration.session, .idle, point.reported ++ enumeration.reported,
        point.taken ++ models⟩ := by
  obtain ⟨session, activity, reported, taken⟩ := point
  obtain rfl := idle
  obtain ⟨models, leads⟩ := Session.leads_enumerate enumerates asked reported taken
  exact ⟨models, leads.head .begin⟩

/-- Rounds lead to sessions from which the enumeration can go on. -/
theorem Enumerating.rounds
    {problem : Problem}
    (wellFormed : problem.WellFormed)
    {settings : Settings}
    {backend : Backend σ}
    (honest : backend.Honest settings.input settings.output
      problem.formula.atoms.length
      (problem.formula.clauses.length + 2 ^ problem.formula.atoms.length))
    {session last : Session σ}
    {found : List Solution}
    {taken : List Round}
    (enumerating : Enumerating problem settings session found)
    (gone : Rounds backend session found taken last) :
    Enumerating problem settings last (foundAfter found taken) := by
  induction gone with
  | nil => exact enumerating
  | cons round goesOn replies answered blocks others inductionHypothesis =>
      rcases enumerating.round wellFormed honest with
        ⟨ended, solves, _⟩ | ⟨solved, blocked, solution, solves, blocksTo, next, _⟩
      · rw [solves] at answered
        cases answered
      · rw [solves] at answered blocks
        cases answered
        cases blocks.symm.trans blocksTo
        exact inductionHypothesis next

/-- With an honest backend, a history leads to the end of a whole enumeration. -/
theorem Enumerating.exists_leads
    {problem : Problem}
    (wellFormed : problem.WellFormed)
    {settings : Settings}
    (unlimited : settings.limit = none)
    {backend : Backend σ}
    (honest : backend.Honest settings.input settings.output
      problem.formula.atoms.length
      (problem.formula.clauses.length + 2 ^ problem.formula.atoms.length))
    {asks : Session σ → Prop}
    (asked : ∀ session found, Enumerating problem settings session found →
      asks session)
    {session : Session σ}
    (enumerating : Enumerating problem settings session []) :
    ∃ point, Leads backend asks { session } point ∧
      point.session.status = .unsatisfiable := by
  obtain ⟨enumeration, ends, ⟨_, status⟩⟩ :=
    enumerating.exists_enumerateFrom wellFormed unlimited honest 0
  obtain ⟨models, leads⟩ := Point.leads_enumerate { session } rfl
    (ends _ (Nat.lt_succ_self _))
    fun _ _ gone => asked _ _ (enumerating.rounds wellFormed honest gone)
  exact ⟨_, leads, status⟩

end Session
end OrderEncoding
