import OrderEncoding.Proofs.Problem.WellFormed
import OrderEncoding.Proofs.Solving.Histories

/-!
# What enumerations report

Whatever a backend answers, an enumeration reports solutions that differ from
each other, at most as many as its limit says, each with the declared variables
and values of their domains.  An enumeration that does not fail returns what it
has reported; it has reached its limit, or its backend said that no model is left.
-/

namespace OrderEncoding

theorem Settings.stopsAt_eq_true_iff
    {settings : Settings}
    {count : Nat} :
    settings.stopsAt count = true ↔
      ∃ bound, settings.limit = some bound ∧ bound ≤ count := by
  rw [stopsAt, Option.any_eq_true]
  simp

theorem Settings.stopsAt_eq_false_iff
    {settings : Settings}
    {count : Nat} :
    settings.stopsAt count = false ↔
      ∀ bound, settings.limit = some bound → count < bound := by
  rw [stopsAt, Option.any_eq_false]
  simp

namespace Problem

/-- What may be reported in an enumeration of a problem. -/
structure ProperReport
    (problem : Problem)
    (limit : Option Nat)
    (reported : List Solution) : Prop where
  nodup : reported.Nodup
  limited : ∀ bound, limit = some bound → reported.length ≤ bound
  /-- Each solution lists the declared variables, none of them twice. -/
  lists : ∀ solution ∈ reported, problem.Lists solution ∧
    (solution.bindings.map Binding.name).Nodup

theorem properReport_nil
    (problem : Problem)
    (limit : Option Nat) :
    problem.ProperReport limit [] :=
  ⟨List.nodup_nil, fun bound _ => Nat.zero_le bound, nofun⟩

/-- Below the limit, one more solution may be reported. -/
theorem ProperReport.append_news
    {problem : Problem}
    (wellFormed : problem.WellFormed)
    {settings : Settings}
    {found : List Solution}
    (proper : problem.ProperReport settings.limit found)
    (goesOn : settings.stopsAt found.length = false)
    {solution : Solution}
    (lists : problem.Lists solution) :
    problem.ProperReport settings.limit
      (found ++ Session.news found solution) := by
  refine ⟨Session.nodup_append_news proper.nodup id, ?_, ?_⟩
  · intro bound limit
    have below := Settings.stopsAt_eq_false_iff.mp goesOn bound limit
    exact (Session.length_append_news_le found solution).trans below
  · intro other member
    rcases (Session.mem_append_news fun _ => id).mp member with old | rfl
    · exact proper.lists other old
    · exact ⟨lists, lists.names_eq ▸ wellFormed.names_nodup⟩

/-- A proper report that stops an enumeration is as long as the limit says. -/
theorem ProperReport.limit_eq
    {problem : Problem}
    {settings : Settings}
    {found : List Solution}
    (proper : problem.ProperReport settings.limit found)
    (stops : settings.stopsAt found.length = true) :
    settings.limit = some found.length := by
  obtain ⟨bound, limit, reached⟩ := Settings.stopsAt_eq_true_iff.mp stops
  rw [limit, Nat.le_antisymm reached (proper.limited bound limit)]

end Problem

namespace Session

variable {σ : Type}

/-! ## Reports over the history of a session -/

/-- What holds at every point in the history of a session: an enumeration that
goes on has made a proper report, which is the last part of all that was
reported. -/
structure Reporting
    (problem : Problem)
    (settings : Settings)
    (point : Point σ) : Prop where
  sameProblem : point.session.problem = problem
  sameSettings : point.session.settings = settings
  proper : ∀ found calls, point.activity = .seeking found calls →
    problem.ProperReport settings.limit found ∧ found <:+ point.reported

theorem reporting_fresh
    (problem : Problem)
    (settings : Settings)
    (memory : σ)
    (files : Files) :
    Reporting problem settings
      { session := fresh problem settings memory files } :=
  ⟨rfl, rfl, nofun⟩

/-- An enumeration that begins has reported nothing. -/
theorem Reporting.begin
    {problem : Problem}
    {settings : Settings}
    {point : Point σ}
    (reporting : Reporting problem settings point) :
    Reporting problem settings { point with activity := .seeking [] 0 } := by
  refine ⟨reporting.sameProblem, reporting.sameSettings, ?_⟩
  rintro found calls ⟨⟩
  exact ⟨problem.properReport_nil _, List.nil_suffix⟩

/-- Where no enumeration goes on, only the problem and the settings matter. -/
theorem Reporting.idle
    {problem : Problem}
    {settings : Settings}
    {point : Point σ}
    (reporting : Reporting problem settings point)
    {next : Session σ}
    (alike : next.Alike point.session)
    (reported : List Solution)
    (taken : List (List Int)) :
    Reporting problem settings ⟨next, .idle, reported, taken⟩ :=
  ⟨alike.problem.trans reporting.sameProblem,
    alike.settings.trans reporting.sameSettings, nofun⟩

/-- A model that is taken up below the limit leaves a proper report. -/
theorem Reporting.append_news
    {problem : Problem}
    (wellFormed : problem.WellFormed)
    {settings : Settings}
    {backend : Backend σ}
    {session : Session σ}
    {found : List Solution}
    {calls : Nat}
    {reported : List Solution}
    {taken : List (List Int)}
    (reporting : Reporting problem settings
      ⟨session, .seeking found calls, reported, taken⟩)
    (goesOn : session.settings.stopsAt found.length = false)
    {call : BackendCall σ}
    {numbers : List Int}
    (replies : Replies backend session call (.model numbers))
    {solution : Solution}
    (answered : (session.solve backend).result = .ok (.satisfiable solution)) :
    problem.ProperReport settings.limit (found ++ news found solution) := by
  obtain ⟨rfl, rfl, proper⟩ := reporting
  have lists := Problem.lists_of_decode (replies.decodes answered).1
  exact (proper _ _ rfl).1.append_news wellFormed goesOn lists

/-- Every step in a history keeps what holds of the reports. -/
theorem Reporting.follows
    {problem : Problem}
    (wellFormed : problem.WellFormed)
    {settings : Settings}
    {backend : Backend σ}
    {asks : Session σ → Prop}
    {point next : Point σ}
    (reporting : Reporting problem settings point)
    (follows : Follows backend asks point next) :
    Reporting problem settings next := by
  cases follows with
  | solve => exact reporting.idle (solve_alike backend _) _ _
  | exportFormula => exact reporting.idle (exportFormula_kept _).toAlike _ _
  | begin => exact reporting.begin
  | stop => exact reporting.idle (finish_kept _ _ _).toAlike _ _
  | fail => exact reporting.idle (solve_alike backend _) _ _
  | exhaust =>
      exact reporting.idle
        ((finish_kept _ _ _).toAlike.trans (solve_alike backend _)) _ _
  | round goesOn asked answered replies blocks =>
      -- What is new goes to the end of the report and of all that was reported.
      obtain ⟨sameProblem, sameSettings⟩ := problem_of_round blocks
      refine ⟨sameProblem.trans reporting.sameProblem,
        sameSettings.trans reporting.sameSettings, ?_⟩
      rintro found calls ⟨⟩
      obtain ⟨_, before, adds⟩ := reporting.proper _ _ rfl
      exact ⟨reporting.append_news wellFormed goesOn replies answered, before,
        (List.append_assoc _ _ _).symm.trans (congrArg (· ++ _) adds)⟩
  | unblocked goesOn asked answered replies fails =>
      obtain ⟨sameProblem, sameSettings⟩ := problem_of_round fails
      exact ⟨sameProblem.trans reporting.sameProblem,
        sameSettings.trans reporting.sameSettings, nofun⟩

theorem Reporting.leads
    {problem : Problem}
    (wellFormed : problem.WellFormed)
    {settings : Settings}
    {backend : Backend σ}
    {asks : Session σ → Prop}
    {point next : Point σ}
    (reporting : Reporting problem settings point)
    (leads : Leads backend asks point next) :
    Reporting problem settings next := by
  induction leads with
  | refl => exact reporting
  | tail _ follows inductionHypothesis =>
      exact inductionHypothesis.follows wellFormed follows

/-! ## Reports of enumerations that end -/

/-- Why an enumeration ends without a failure. -/
inductive Finished
    (backend : Backend σ)
    (limit : Option Nat)
    (session : Session σ)
    (enumeration : Enumeration σ) : Prop
  /-- As many solutions were reported as the limit says. -/
  | limited
      (limit_eq : limit = some enumeration.reported.length)
  /-- After some rounds, the backend says that no model is left. -/
  | exhausted
      (taken : List Round)
      (last : Session σ)
      (call : BackendCall σ)
      (gone : Rounds backend session [] taken last)
      (replies : Replies backend last call .unsatisfiable)
      (calls : enumeration.calls = taken.length + 1)
      (status : enumeration.session.status = .unsatisfiable)

/-- An enumeration makes a proper report.  If it does not fail, it returns the
report and is finished. -/
theorem Reporting.enumerate
    {problem : Problem}
    (wellFormed : problem.WellFormed)
    {settings : Settings}
    {point : Point σ}
    (reporting : Reporting problem settings point)
    {backend : Backend σ}
    {rounds : Nat}
    {enumeration : Enumeration σ}
    (enumerates : point.session.enumerate backend rounds = some enumeration) :
    problem.ProperReport settings.limit enumeration.reported ∧
      ∀ found, enumeration.result = .ok found →
        found = enumeration.reported ∧
          Finished backend settings.limit point.session enumeration := by
  obtain ⟨taken, last, gone, _, ends⟩ := exists_rounds enumerates
  -- The rounds are a stretch of the history, at whose end the report is proper.
  obtain ⟨_, _, leads⟩ :=
    gone.leads (fun _ _ _ => trivial) 0 point.reported point.taken
  have reportingLast := reporting.begin.leads wellFormed leads
  obtain ⟨proper, _⟩ := reportingLast.proper _ _ rfl
  cases ends with
  | stopped stops =>
      refine ⟨proper, ?_⟩
      rintro found ⟨⟩
      rw [reportingLast.sameSettings] at stops
      exact ⟨rfl, .limited (proper.limit_eq stops)⟩
  | failed goesOn fails => exact ⟨proper, nofun⟩
  | exhausted goesOn answered =>
      refine ⟨proper, ?_⟩
      rintro found ⟨⟩
      obtain ⟨call, replies, status⟩ := exists_replies_of_unsatisfiable answered
      exact ⟨rfl, .exhausted taken last call gone replies
        (congrArg (· + 1) (Nat.zero_add _)) status⟩
  | unblocked round goesOn replies answered fails =>
      exact ⟨reportingLast.append_news wellFormed goesOn replies answered, nofun⟩

end Session

namespace Problem

/-- Whatever a backend answers, what an enumeration has reported is proper at
every point in the history of a session, also if the enumeration never ends.  If
it ends, then its report is added to what was reported before.  If it does not
fail, then it returns its report, and has reported as many solutions as the limit
says or was told that no model is left. -/
theorem reports_over_history
    {text : String}
    {problem : Problem}
    (accepted : Problem.read text = .ok problem)
    (settings : Settings)
    {σ : Type}
    (memory : σ)
    (files : Files)
    (backend : Backend σ) :
    ∃ session, Session.start problem settings memory files = .ok session ∧
      ∀ point, Session.Leads backend (fun _ => True) { session } point →
        (∀ found calls, point.activity = .seeking found calls →
          problem.ProperReport settings.limit found ∧
            found <:+ point.reported) ∧
        ∀ rounds enumeration,
          point.session.enumerate backend rounds = some enumeration →
          problem.ProperReport settings.limit enumeration.reported ∧
          (∃ taken, Session.Leads backend (fun _ => True)
            ⟨point.session, .seeking [] 0, point.reported, point.taken⟩
            ⟨enumeration.session, .idle,
              point.reported ++ enumeration.reported, taken⟩) ∧
          ∀ found, enumeration.result = .ok found →
            found = enumeration.reported ∧
            Session.Finished backend settings.limit point.session
              enumeration := by
  have wellFormed := wellFormed_of_read accepted
  refine ⟨_, Session.start_eq_ok problem settings memory files, ?_⟩
  intro point leads
  have reporting := (Session.reporting_fresh problem settings memory files).leads
    wellFormed leads
  refine ⟨reporting.proper, fun rounds enumeration enumerates => ?_⟩
  obtain ⟨proper, returns⟩ := reporting.enumerate wellFormed enumerates
  obtain ⟨models, onward⟩ := Session.leads_enumerate enumerates
    (fun _ _ _ => trivial) point.reported point.taken
  exact ⟨proper, ⟨point.taken ++ models, onward⟩, returns⟩

/-- Two of three answers stand for one solution of a problem in two variables;
with the limit two, the two solutions are reported and returned after them. -/
theorem reports_over_history_repeated_answer :
    let settings : Settings :=
      { program := "search", input := "in", output := "out", limit := some 2 }
    let answers := ["SAT\n5 6 0\n", "SAT\n5 6 7 0\n", "SAT\n5 4 0\n"]
    let all : List Solution :=
      [⟨[⟨"x", 0⟩, ⟨"y", 0⟩]⟩, ⟨[⟨"x", 0⟩, ⟨"y", 1⟩]⟩]
    Problem.read "x 0 1 y 0 1 [x+y<=1 -(x!=1)]" = .ok twoVariables ∧
      ∃ session enumeration,
        Session.start twoVariables settings answers {} = .ok session ∧
        session.enumerate answersInTurn 4 = some enumeration ∧
        enumeration.result = .ok all ∧
        enumeration.calls = 3 ∧
        enumeration.reported = all ∧
        twoVariables.ProperReport (some 2) all ∧
        Session.Finished answersInTurn (some 2) session enumeration := by
  intro settings answers all
  obtain ⟨session, started, history⟩ := reports_over_history read_twoVariables
    settings answers {} answersInTurn
  obtain ⟨_, enumerations⟩ := history _ .refl
  have ends : (session.enumerate answersInTurn 4).map
        (fun enumeration => (enumeration.result, enumeration.calls)) =
      some (.ok all, 3) := by
    rw [Session.eq_fresh_of_start started]
    decide +kernel
  obtain ⟨enumeration, enumerates, same⟩ := Option.map_eq_some_iff.mp ends
  obtain ⟨returns, calls⟩ := Prod.mk.inj same
  obtain ⟨proper, _, finishes⟩ := enumerations 4 enumeration enumerates
  obtain ⟨reported, finished⟩ := finishes all returns
  exact ⟨read_twoVariables, session, enumeration, started, enumerates, returns,
    calls, reported.symm, reported ▸ proper, finished⟩

end Problem
end OrderEncoding
