import OrderEncoding.Proofs.Formula.ModelCount
import OrderEncoding.Proofs.Solving.Excluding
import OrderEncoding.Proofs.Solving.Search

/-!
# Enumerating solutions

An enumeration asks for a model, reports the solution that it stands for, and
excludes the model.  Every round leaves one class of models less.  So an honest
backend is asked finitely often, and what has been reported when no model is left
are the solutions of the problem.
-/

namespace OrderEncoding
namespace Session

variable {σ : Type}

/-- What holds of a session while the solutions of a problem are enumerated, and
of the solutions that were found. -/
structure Enumerating
    (problem : Problem)
    (settings : Settings)
    (session : Session σ)
    (found : List Solution) : Prop extends
    Excluding problem settings session found where
  ready : session.Ready
  nodup : found.Nodup
  /-- Every clause that was added excluded one class of models. -/
  counted : session.formula.clauses.length +
      (session.formula.classes settings.blocking).card =
    problem.formula.clauses.length +
      (problem.formula.classes settings.blocking).card

/-- A fresh session is enumerating, and has found nothing. -/
theorem enumerating_start
    {problem : Problem}
    (wellFormed : problem.WellFormed)
    (settings : Settings)
    (memory : σ)
    {files : Files}
    (usable : files.Usable settings.input settings.output)
    {session : Session σ}
    (started : start problem settings memory files = .ok session) :
    Enumerating problem settings session [] := by
  obtain rfl := eq_fresh_of_start started
  exact ⟨excluding_fresh wellFormed settings memory files, usable,
    List.nodup_nil, rfl⟩

/-- There are no more clauses than models were excluded. -/
theorem Enumerating.bounded
    {problem : Problem}
    {settings : Settings}
    {session : Session σ}
    {found : List Solution}
    (enumerating : Enumerating problem settings session found) :
    session.formula.clauses.length ≤
      problem.formula.clauses.length + 2 ^ problem.formula.atoms.length := by
  have counted := enumerating.counted
  have atMost := problem.formula.card_classes_le settings.blocking
  omega

/-- Asking a backend changes nothing that the enumeration depends on. -/
theorem Enumerating.of_alike
    {problem : Problem}
    {settings : Settings}
    {session asked : Session σ}
    {found : List Solution}
    (enumerating : Enumerating problem settings session found)
    (alike : asked.Alike session)
    (ready : asked.Ready) :
    Enumerating problem settings asked found := by
  refine ⟨enumerating.toExcluding.of_alike alike, ready, enumerating.nodup, ?_⟩
  rw [alike.formula]
  exact enumerating.counted

/-- A model that is left is taken up as its solution, and is excluded, which
leaves one class of models less. -/
theorem Enumerating.exists_accept_model
    {problem : Problem}
    (wellFormed : problem.WellFormed)
    {settings : Settings}
    {session : Session σ}
    {found : List Solution}
    (enumerating : Enumerating problem settings session found)
    {numbers : List Int}
    (model : session.formula.numbered.Model numbers) :
    ∃ (solved blocked : Session σ) (solution : Solution),
      session.accept (.model numbers) = solved.done (.satisfiable solution) ∧
        solved.blockLastModel = blocked.done () ∧
        Enumerating problem settings blocked (found ++ news found solution) ∧
        (blocked.formula.classes settings.blocking).card + 1 =
          (session.formula.classes settings.blocking).card := by
  obtain ⟨truth, holds, same⟩ :=
    enumerating.wellFormed.model_numbered_iff.mp model
  obtain ⟨value, describes, decodes⟩ :=
    enumerating.exists_decode wellFormed holds same
  obtain ⟨clause, made, excludes⟩ :=
    Formula.exists_blockingClause same settings.blocking
  have asked : Excluding problem settings
      (session.accepted numbers (problem.solutionOf value)) found :=
    enumerating.toExcluding.of_alike ⟨rfl, rfl, rfl⟩
  have blocks := blockLastModel_eq_done asked.wellFormed
    (show (session.accepted numbers (problem.solutionOf value)).lastModel =
      some numbers from rfl)
    (enumerating.sameSettings ▸ made) excludes.registered
  have fewer := enumerating.wellFormed.card_classes_withClause holds excludes
  refine ⟨_, _, _, accept_model_eq_done (enumerating.sameProblem.symm ▸ decodes),
    blocks, ⟨?_, enumerating.ready, ?_, ?_⟩, fewer⟩
  · exact asked.exclude wellFormed describes excludes fun solution =>
      mem_append_news fun _ => id
  · exact nodup_append_news enumerating.nodup id
  · have before := enumerating.counted
    have longer : (session.formula.withClause clause).clauses.length =
        session.formula.clauses.length + 1 := List.length_append
    change (session.formula.withClause clause).clauses.length +
      ((session.formula.withClause clause).classes settings.blocking).card = _
    omega

/-- The backend is honest about the formula that an enumeration has come to. -/
theorem Enumerating.honest
    {problem : Problem}
    {settings : Settings}
    {session : Session σ}
    {found : List Solution}
    (enumerating : Enumerating problem settings session found)
    {backend : Backend σ}
    {clauseCount : Nat}
    (honest : backend.Honest settings.input settings.output
      problem.formula.atoms.length clauseCount) :
    backend.Honest session.settings.input session.settings.output
      session.formula.atoms.length clauseCount := by
  rw [enumerating.sameSettings, enumerating.sameAtoms]
  exact honest

/-- A round either ends with no model left, or reports the solution of a model
and excludes the model. -/
theorem Enumerating.round
    {problem : Problem}
    (wellFormed : problem.WellFormed)
    {settings : Settings}
    {session : Session σ}
    {found : List Solution}
    (enumerating : Enumerating problem settings session found)
    {backend : Backend σ}
    (honest : backend.Honest settings.input settings.output
      problem.formula.atoms.length
      (problem.formula.clauses.length + 2 ^ problem.formula.atoms.length)) :
    (∃ ended : Session σ, session.solve backend = ended.done .unsatisfiable ∧
      ended.status = .unsatisfiable ∧
      ∀ truth, session.formula.eval truth = false) ∨
    ∃ (solved blocked : Session σ) (solution : Solution),
      session.solve backend = solved.done (.satisfiable solution) ∧
        solved.blockLastModel = blocked.done () ∧
        Enumerating problem settings blocked (found ++ news found solution) ∧
        (blocked.formula.classes settings.blocking).card + 1 =
          (session.formula.classes settings.blocking).card := by
  obtain ⟨asked, verdict, solves, alike, ready, right⟩ :=
    exists_solve_eq_accept enumerating.ready enumerating.wellFormed
      (enumerating.honest honest) enumerating.bounded
  rw [solves, ← alike.formula]
  rw [← alike.formula] at right
  have stillEnumerating := enumerating.of_alike alike ready
  cases verdict with
  | unsatisfiable =>
      exact .inl ⟨_, rfl, rfl, stillEnumerating.wellFormed.eval_eq_false right⟩
  | model numbers =>
      exact .inr (stillEnumerating.exists_accept_model wellFormed right)

/-- A round that finds no model ends the enumeration. -/
theorem enumerateFrom_of_unsatisfiable
    {backend : Backend σ}
    {session ended : Session σ}
    {found : List Solution}
    (goesOn : session.settings.stopsAt found.length = false)
    (solves : session.solve backend = ended.done .unsatisfiable)
    (rounds calls : Nat) :
    enumerateFrom backend (rounds + 1) session found calls =
      some (ended.finish found (calls + 1)) := by
  rw [enumerateFrom, goesOn, if_neg Bool.false_ne_true, solves]
  rfl

/-- A round that finds a model goes on without it. -/
theorem enumerateFrom_of_satisfiable
    {backend : Backend σ}
    {session solved blocked : Session σ}
    {found : List Solution}
    {solution : Solution}
    (goesOn : session.settings.stopsAt found.length = false)
    (solves : session.solve backend = solved.done (.satisfiable solution))
    (blocks : solved.blockLastModel = blocked.done ())
    (rounds calls : Nat) :
    enumerateFrom backend (rounds + 1) session found calls =
      enumerateFrom backend rounds blocked (found ++ news found solution)
        (calls + 1) := by
  rw [enumerateFrom, goesOn, if_neg Bool.false_ne_true, solves, ← append_news]
  simp only [done, blocks]

/-- An enumeration has found all solutions of a problem, each once, and knows
that no model is left. -/
structure Enumeration.Complete
    (problem : Problem)
    (enumeration : Enumeration σ) : Prop where
  result : ∃ found, enumeration.result = .ok found ∧ found.Nodup ∧
    ∀ solution, solution ∈ found ↔ problem.Solves solution
  status : enumeration.session.status = .unsatisfiable

/-- From any state that an enumeration comes to, it ends with all solutions, after
one call for each class of models that is left and one that finds none. -/
theorem Enumerating.exists_enumerateFrom_calls
    {problem : Problem}
    (wellFormed : problem.WellFormed)
    {settings : Settings}
    (unlimited : settings.limit = none)
    {backend : Backend σ}
    (honest : backend.Honest settings.input settings.output
      problem.formula.atoms.length
      (problem.formula.clauses.length + 2 ^ problem.formula.atoms.length))
    {session : Session σ}
    {found : List Solution}
    (enumerating : Enumerating problem settings session found)
    (calls : Nat) :
    ∃ enumeration : Enumeration σ,
      (∀ rounds, (session.formula.classes settings.blocking).card < rounds →
        enumerateFrom backend rounds session found calls = some enumeration) ∧
      enumeration.Complete problem ∧
      enumeration.calls =
        calls + (session.formula.classes settings.blocking).card + 1 := by
  induction counted : (session.formula.classes settings.blocking).card
    using Nat.strong_induction_on generalizing session found calls with
  | _ left inductionHypothesis =>
      have goesOn : ∀ count, session.settings.stopsAt count = false := by
        intro count
        rw [enumerating.sameSettings, Settings.stopsAt, unlimited]
        rfl
      rcases enumerating.round wellFormed honest with
        ⟨ended, solves, status, noneLeft⟩ |
        ⟨solved, blocked, solution, solves, blocks, next, fewer⟩
      · refine ⟨ended.finish found (calls + 1), ?_, ?_, ?_⟩
        · intro rounds enough
          cases rounds with
          | zero => omega
          | succ earlier =>
              exact enumerateFrom_of_unsatisfiable (goesOn _) solves earlier calls
        · refine ⟨⟨found, rfl, enumerating.nodup, fun solution => ?_⟩, status⟩
          exact enumerating.mem_reported_iff noneLeft solution
        · have empty :=
            enumerating.wellFormed.classes_eq_empty noneLeft settings.blocking
          rw [empty, Finset.card_empty] at counted
          rw [← counted]
          rfl
      · obtain ⟨enumeration, ends, complete, count⟩ := inductionHypothesis _
          (by omega) next (calls + 1) rfl
        refine ⟨enumeration, ?_, complete, by omega⟩
        intro rounds enough
        cases rounds with
        | zero => omega
        | succ earlier =>
            rw [enumerateFrom_of_satisfiable (goesOn _) solves blocks]
            exact ends earlier (by omega)

/-- From any state that an enumeration comes to, it ends with all solutions; more
rounds than classes of models are left are enough. -/
theorem Enumerating.exists_enumerateFrom
    {problem : Problem}
    (wellFormed : problem.WellFormed)
    {settings : Settings}
    (unlimited : settings.limit = none)
    {backend : Backend σ}
    (honest : backend.Honest settings.input settings.output
      problem.formula.atoms.length
      (problem.formula.clauses.length + 2 ^ problem.formula.atoms.length))
    {session : Session σ}
    {found : List Solution}
    (enumerating : Enumerating problem settings session found)
    (calls : Nat) :
    ∃ enumeration : Enumeration σ,
      (∀ rounds, (session.formula.classes settings.blocking).card < rounds →
        enumerateFrom backend rounds session found calls = some enumeration) ∧
      enumeration.Complete problem := by
  obtain ⟨enumeration, ends, complete, _⟩ :=
    enumerating.exists_enumerateFrom_calls wellFormed unlimited honest calls
  exact ⟨enumeration, ends, complete⟩

end Session

namespace Problem

/-! ## A problem in two variables -/

/-- A problem in two variables, whose second literal is a negated inequation. -/
def twoVariables : Problem :=
  let x : Variable := { name := "x", lower := 0, upper := 1 }
  let y : Variable := { name := "y", lower := 0, upper := 1 }
  let sum : LinearForm := { monomials := [⟨x, 1⟩, ⟨y, 1⟩] }
  { vars := [x, y]
    clauses :=
      [[⟨sum, 1, true⟩, ⟨.single ⟨x, 1⟩, 0, false⟩],
        [⟨sum, 1, true⟩, ⟨.single ⟨x, 1⟩, 1, true⟩]] }

theorem read_twoVariables :
    Problem.read "x 0 1 y 0 1 [x+y<=1 -(x!=1)]" = .ok twoVariables := by
  decide +kernel

theorem length_formula_twoVariables :
    twoVariables.formula.atoms.length = 10 ∧
      twoVariables.formula.clauses.length = 18 := by
  decide +kernel

/-- The built-in search is honest about the problem while it is enumerated. -/
theorem honest_search_twoVariables :
    (Search.backend false).Honest "in" "out"
      twoVariables.formula.atoms.length
      (twoVariables.formula.clauses.length +
        2 ^ twoVariables.formula.atoms.length) := by
  rw [length_formula_twoVariables.1, length_formula_twoVariables.2]
  exact Search.honest_backend false _ _ (by decide) (by decide)

theorem usable_in_out : Files.Usable {} "in" "out" :=
  ⟨"in", "out", rfl, rfl, by decide, by decide, by decide⟩

/-- A backend that leaves the answers in its memory one after another, and then
gives up. -/
def answersInTurn : Backend (List String) :=
  fun answers _ output files =>
    match answers with
    | [] =>
      { result := .error (.of (.backend "no answer")), memory := [], files }
    | answer :: rest =>
      { result := .ok ()
        memory := rest
        files := (files.write output (.text answer)).toOption.getD files }

/-! ## All solutions of a problem -/

/-- An enumeration with an honest backend ends, with each solution of the problem
once, and with the knowledge that no model is left. -/
theorem enumerate_complete
    {text : String}
    {problem : Problem}
    (accepted : Problem.read text = .ok problem)
    {settings : Settings}
    (unlimited : settings.limit = none)
    {files : Files}
    (usable : files.Usable settings.input settings.output)
    {σ : Type}
    (memory : σ)
    {backend : Backend σ}
    (honest : backend.Honest settings.input settings.output
      problem.formula.atoms.length
      (problem.formula.clauses.length + 2 ^ problem.formula.atoms.length)) :
    ∃ session, Session.start problem settings memory files = .ok session ∧
      ∃ (enumeration : Session.Enumeration σ) (enough : Nat),
        (∀ rounds, enough < rounds →
          session.enumerate backend rounds = some enumeration) ∧
        ∃ found, enumeration.result = .ok found ∧ found.Nodup ∧
          (∀ solution, solution ∈ found ↔
            ∃ value, problem.Inside value ∧ problem.eval value = true ∧
              problem.solutionOf value = solution) ∧
          enumeration.session.status = .unsatisfiable := by
  have wellFormed := wellFormed_of_read accepted
  obtain ⟨session, started⟩ : ∃ session,
      Session.start problem settings memory files = .ok session := by
    rw [Session.start, encode_eq_ok]
    exact ⟨_, rfl⟩
  have enumerating :=
    Session.enumerating_start wellFormed settings memory usable started
  obtain ⟨enumeration, ends, ⟨found, finds, nodup, exact⟩, status⟩ :=
    enumerating.exists_enumerateFrom wellFormed unlimited honest 0
  exact ⟨session, started, enumeration, _, ends, found, finds, nodup, exact,
    status⟩

/-- The solutions of a problem in two variables, by the built-in search. -/
theorem enumerate_complete_two_variables :
    ∃ problem, Problem.read "x 0 1 y 0 1 [x+y<=1 -(x!=1)]" = .ok problem ∧
      ∃ session, Session.start problem
          { program := "search", input := "in", output := "out" } () {} =
        .ok session ∧
        ∃ (enumeration : Session.Enumeration Unit) (enough : Nat),
          (∀ rounds, enough < rounds →
            session.enumerate (Search.backend false) rounds =
              some enumeration) ∧
          ∃ found, enumeration.result = .ok found ∧ found.Nodup ∧
            (∀ solution, solution ∈ found ↔
              ∃ value, problem.Inside value ∧ problem.eval value = true ∧
                problem.solutionOf value = solution) ∧
            enumeration.session.status = .unsatisfiable :=
  ⟨twoVariables, read_twoVariables,
    enumerate_complete read_twoVariables rfl usable_in_out ()
      honest_search_twoVariables⟩

end Problem
end OrderEncoding
