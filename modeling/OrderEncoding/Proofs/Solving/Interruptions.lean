import OrderEncoding.Proofs.Solving.Failures
import OrderEncoding.Proofs.Solving.Instances

/-!
# Enumerations that fail

A question that fails leaves a session as it was.  An enumeration that fails
leaves it as its rounds have left it: with one clause more for each model that was
taken up, and after the solutions of these models were reported.
-/

namespace OrderEncoding
namespace Session

variable {σ : Type}

/-- Rounds add one clause for each model that they take up: the clause that blocks
the model. -/
theorem Rounds.exists_formula_eq
    {backend : Backend σ}
    {session last : Session σ}
    (wellFormed : session.formula.WellFormed)
    {found : List Solution}
    {taken : List Round}
    (gone : Rounds backend session found taken last) :
    ∃ added,
      last.formula =
        { session.formula with clauses := session.formula.clauses ++ added } ∧
      List.Forall₂ (session.formula.Blocks session.settings.blocking)
        (taken.map Round.model) added := by
  obtain ⟨_, _, leads⟩ := gone.leads (fun _ _ _ => trivial) 0 [] []
  obtain ⟨_, sameAtoms, lastWellFormed, added, clauses, blocked⟩ :=
    (grown_begin session wellFormed _ _).leads leads
  have extended := lastWellFormed.eq_with_clauses wellFormed.toIndexed sameAtoms
  rw [clauses] at extended
  exact ⟨added, extended, blocked⟩

end Session

namespace Problem

/-- At every point in the history of a session, with whatever backend, a question
that fails leaves the formula, the status and the last model as they are.  If an
enumeration fails, then a question fails after some rounds.  The formula has one
clause more for each of these rounds, which blocks its model; the solutions of the
rounds were reported, each when it came first; and the session remembers the last
of its rounds. -/
theorem interruptions_over_history
    (problem : Problem)
    (settings : Settings)
    {σ : Type}
    (memory : σ)
    (files : Files)
    (backend : Backend σ) :
    ∃ session, Session.start problem settings memory files = .ok session ∧
      ∀ point, Session.Leads backend (fun _ => True) { session } point →
        (∀ failure, (point.session.solve backend).result = .error failure →
          (point.session.solve backend).session.Kept point.session) ∧
        ∀ rounds enumeration failure,
          point.session.enumerate backend rounds = some enumeration →
          enumeration.result = .error failure →
          ∃ taken last inner added,
            Session.Rounds backend point.session [] taken last ∧
            (last.solve backend).result = .error inner ∧
            failure = inner.within (.seekingSolution (taken.length + 1)) ∧
            enumeration.calls = taken.length ∧
            enumeration.session.formula =
              { point.session.formula with
                clauses := point.session.formula.clauses ++ added } ∧
            List.Forall₂ (point.session.formula.Blocks settings.blocking)
              (taken.map Round.model) added ∧
            enumeration.reported = (taken.map Round.solution).eraseDups ∧
            enumeration.session.status =
              (if taken.isEmpty then point.session.status else .satisfiable) ∧
            enumeration.session.lastModel =
              (if taken.isEmpty then point.session.lastModel else none) := by
  refine ⟨_, Session.start_eq_ok problem settings memory files, ?_⟩
  intro point leads
  have sound : point.session.Sound :=
    Session.Sound.leads (Session.sound_fresh problem settings memory files) leads
  have sameSettings : point.session.settings = settings :=
    ((Session.grown_fresh problem settings memory files).leads leads).sameSettings
  refine ⟨fun failure fails => (sound.kept_and_fromBackend fails).1, ?_⟩
  intro rounds enumeration failure enumerates fails
  obtain ⟨taken, last, inner, gone, lastFails, rfl⟩ :=
    sound.exists_rounds_of_error enumerates fails
  have kept := ((sound.rounds gone).kept_and_fromBackend lastFails).1
  obtain ⟨added, grown, blocked⟩ := gone.exists_formula_eq sound.wellFormed
  obtain ⟨status, lastModel⟩ := gone.status
  rw [sameSettings] at blocked
  rw [Nat.zero_add] at fails
  exact ⟨taken, last, inner, added, gone, lastFails, (Except.error.inj fails).symm,
    Nat.zero_add _, kept.formula.trans grown, blocked,
    Session.foundAfter_nil taken, kept.status.trans status,
    kept.lastModel.trans lastModel⟩

/-- Two answers stand for one solution of a problem in two variables, which is
reported before there is no third answer. -/
theorem interruptions_over_history_two_answers :
    ∃ session, Session.start twoVariables
        { program := "search", input := "in", output := "out" }
        ["SAT\n5 6 0\n", "SAT\n5 6 7 0\n"] {} = .ok session ∧
      ∃ enumeration failure,
        session.enumerate answersInTurn 3 = some enumeration ∧
        enumeration.result = .error failure ∧
        ∃ taken last inner added,
          Session.Rounds answersInTurn session [] taken last ∧
          (last.solve answersInTurn).result = .error inner ∧
          failure = inner.within (.seekingSolution 3) ∧
          enumeration.session.formula =
            { session.formula with
              clauses := session.formula.clauses ++ added } ∧
          List.Forall₂ (session.formula.Blocks .fullAssignment)
            (taken.map Round.model) added ∧
          enumeration.reported = (taken.map Round.solution).eraseDups ∧
          taken.length = 2 ∧ enumeration.reported = [⟨[⟨"x", 0⟩, ⟨"y", 0⟩]⟩] ∧
          enumeration.session.status = .satisfiable := by
  obtain ⟨session, started, history⟩ :=
    interruptions_over_history twoVariables
      { program := "search", input := "in", output := "out" }
      ["SAT\n5 6 0\n", "SAT\n5 6 7 0\n"] {} answersInTurn
  obtain ⟨_, enumerations⟩ := history _ .refl
  have ends : (session.enumerate answersInTurn 3).map
        (fun enumeration =>
          (enumeration.result, enumeration.calls, enumeration.reported)) =
      some (.error (.within (.within (.of (.backend "no answer")) .callingSolver)
        (.seekingSolution 3)), 2, [⟨[⟨"x", 0⟩, ⟨"y", 0⟩]⟩]) := by
    rw [Session.eq_fresh_of_start started]
    decide +kernel
  obtain ⟨enumeration, enumerates, same⟩ := Option.map_eq_some_iff.mp ends
  rw [Prod.mk.injEq, Prod.mk.injEq] at same
  obtain ⟨fails, two, once⟩ := same
  obtain ⟨taken, last, inner, added, gone, lastFails, within, calls, formula,
    blocked, reported, status, _⟩ := enumerations 3 enumeration _ enumerates fails
  have count : taken.length = 2 := calls.symm.trans two
  rw [count] at within
  have nonempty : taken.isEmpty = false :=
    List.isEmpty_eq_false_iff.mpr (List.ne_nil_of_length_eq_add_one count)
  rw [nonempty] at status
  exact ⟨session, started, enumeration, _, enumerates, fails, taken, last, inner,
    added, gone, lastFails, within, formula, blocked, reported, count, once,
    status⟩
end Problem
end OrderEncoding
