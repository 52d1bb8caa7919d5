import OrderEncoding.Proofs.Solving.Calls
import OrderEncoding.Proofs.Solving.Reports

/-!
# Enumerations with a limit

A session with a limit asks the same questions as one without, and gets the same
answers, until it has found as many solutions as the limit says.  So it finds the
first of the solutions, and it learns that no model is left only if it has found
all of them.
-/

namespace OrderEncoding

variable {σ α : Type}

/-! ## Sessions with another limit -/

/-- The same session with another limit. -/
def Session.withLimit (session : Session σ) (limit : Option Nat) : Session σ :=
  { session with settings := { session.settings with limit } }

/-- The same step of a session with another limit. -/
def Step.withLimit (step : Step σ α) (limit : Option Nat) : Step σ α :=
  { step with session := step.session.withLimit limit }

namespace Session

variable
  (session : Session σ)
  (limit : Option Nat)

theorem exportFormula_withLimit :
    (session.withLimit limit).exportFormula =
      session.exportFormula.withLimit limit := by
  cases made : session.formula.toDimacs session.settings.comment with
  | error failure =>
      simp only [exportFormula, withLimit, made]
      rfl
  | ok text =>
      cases writes : session.files.write session.settings.input (.text text) with
      | error fault =>
          simp only [exportFormula, withLimit, made, writes]
          rfl
      | ok files =>
          simp only [exportFormula, withLimit, made, writes]
          rfl

theorem accept_withLimit (verdict : Verdict) :
    (session.withLimit limit).accept verdict =
      (session.accept verdict).withLimit limit := by
  cases verdict with
  | unsatisfiable => rfl
  | model numbers =>
      cases decodes : session.problem.decode session.formula numbers with
      | error failure =>
          simp only [accept, withLimit, decodes]
          rfl
      | ok solution =>
          simp only [accept, withLimit, decodes]
          rfl

theorem readOutput_withLimit :
    (session.withLimit limit).readOutput =
      session.readOutput.withLimit limit := by
  simp only [readOutput, withLimit]
  split
  next => rfl
  next text textAt =>
    split
    next => rfl
    next verdict reads => exact session.accept_withLimit limit verdict

theorem prepare_withLimit :
    (session.withLimit limit).prepare = session.prepare.withLimit limit := by
  simp only [prepare, exportFormula_withLimit, Step.withLimit]
  split
  next => rfl
  next succeeds =>
    simp only [withLimit]
    split
    next => rfl
    next => rfl

theorem callBackend_withLimit (backend : Backend σ) :
    (session.withLimit limit).callBackend backend =
      (session.callBackend backend).withLimit limit := by
  simp only [callBackend, withLimit]
  split
  next => rfl
  next succeeds => exact (session.called _).readOutput_withLimit limit

/-- The limit makes no difference to a question. -/
theorem solve_withLimit (backend : Backend σ) :
    (session.withLimit limit).solve backend =
      (session.solve backend).withLimit limit := by
  simp only [solve, prepare_withLimit, Step.withLimit]
  split
  next => rfl
  next succeeds => exact callBackend_withLimit _ limit backend

theorem blockLastModel_withLimit :
    (session.withLimit limit).blockLastModel =
      session.blockLastModel.withLimit limit := by
  simp only [blockLastModel, withLimit]
  split
  next => rfl
  next model last =>
    split
    next => rfl
    next clause made =>
      split
      next => rfl
      next => rfl

theorem handover_withLimit :
    (session.withLimit limit).handover = session.handover := by
  rw [handover, prepare_withLimit]
  rfl

/-- A limit is reached by so many solutions. -/
theorem stopsAt_withLimit (count bound : Nat) :
    (session.withLimit (some bound)).settings.stopsAt count =
      decide (bound ≤ count) := rfl

theorem Replies.withLimit
    {session : Session σ}
    {backend : Backend σ}
    {call : BackendCall σ}
    {verdict : Verdict}
    (replies : Replies backend session call verdict)
    (limit : Option Nat) :
    Replies backend (session.withLimit limit) call verdict := by
  obtain ⟨called, succeeds, reads⟩ := replies
  rw [← session.handover_withLimit limit] at called
  exact ⟨called, succeeds, reads⟩

/-- Rounds with a limit: either all of them fit, or the first ones reach the
limit. -/
theorem Rounds.withLimit
    {backend : Backend σ}
    {session last : Session σ}
    {found : List Solution}
    {taken : List Round}
    (gone : Rounds backend session found taken last)
    {bound : Nat}
    (atMost : found.length ≤ bound) :
    (foundAfter found taken).length < bound ∧
        Rounds backend (session.withLimit (some bound)) found taken
          (last.withLimit (some bound)) ∨
      ∃ first rest middle, taken = first ++ rest ∧
        (foundAfter found first).length = bound ∧
        Rounds backend session found first middle ∧
        Rounds backend (session.withLimit (some bound)) found first
          (middle.withLimit (some bound)) := by
  induction gone with
  | @nil session found =>
      rcases Nat.lt_or_eq_of_le atMost with fewer | reached
      · exact .inl ⟨fewer, .nil⟩
      · exact .inr ⟨[], [], session, rfl, reached, .nil, .nil⟩
  | @cons session found round goesOn call replies answered blocked blocks rest
      last others inductionHypothesis =>
      rcases Nat.lt_or_eq_of_le atMost with fewer | reached
      · have stillAtMost := (length_append_news_le found round.solution).trans fewer
        have limited : ∀ {taken last},
            Rounds backend (blocked.withLimit (some bound))
              (found ++ news found round.solution) taken last →
            Rounds backend (session.withLimit (some bound)) found (round :: taken)
              last := by
          intro taken last others
          refine .cons round ?_ (replies.withLimit (some bound)) ?_ ?_ others
          · rw [stopsAt_withLimit, decide_eq_false (Nat.not_le_of_lt fewer)]
          · rw [solve_withLimit]
            exact answered
          · rw [solve_withLimit, Step.withLimit, blockLastModel_withLimit, blocks]
            rfl
        rcases inductionHypothesis stillAtMost with
          ⟨fits, othersLimited⟩ |
          ⟨first, later, middle, rfl, reached, firstGone, firstLimited⟩
        · exact .inl ⟨fits, limited othersLimited⟩
        · exact .inr ⟨round :: first, later, middle, rfl, reached,
            .cons round goesOn replies answered blocks firstGone,
            limited firstLimited⟩
      · exact .inr ⟨[], _, session, rfl, reached, .nil, .nil⟩

/-- The enumeration with a limit, after one without a limit has finished. -/
structure Enumeration.Limited
    (backend : Backend σ)
    (bound : Nat)
    (all : List Solution)
    (unlimited limited : Enumeration σ) : Prop where
  result : limited.result = .ok (all.take bound)
  calls : limited.calls ≤ unlimited.calls
  tally : ∀ tally, backend.Tallies tally →
    tally limited.session.memory ≤ tally unlimited.session.memory
  status : limited.session.status = .unsatisfiable ↔ all.length < bound

/-- If all solutions are fewer than the limit, then it is found with a limit too
that no model is left. -/
theorem exists_ends_of_fits
    {backend : Backend σ}
    {last : Session σ}
    {all : List Solution}
    (answered : (last.solve backend).result = .ok .unsatisfiable)
    {bound : Nat}
    (fits : all.length < bound)
    (calls : Nat) :
    ∃ limited,
      Ends backend (last.withLimit (some bound)) all calls limited ∧
      ((last.solve backend).session.finish all (calls + 1)).Limited backend bound
        all limited := by
  have solves := last.solve_withLimit (some bound) backend
  obtain ⟨_, _, status⟩ := exists_replies_of_unsatisfiable answered
  refine ⟨_, .exhausted ?_ (solves ▸ answered), ?_⟩
  · rw [stopsAt_withLimit, decide_eq_false (Nat.not_le_of_lt fits)]
  · rw [solves]
    constructor
    case result => exact congrArg Except.ok (List.take_of_length_le fits.le).symm
    case calls => exact Nat.le_refl _
    case tally => exact fun _ _ => Nat.le_refl _
    case status => exact iff_of_true status fits

/-- If the limit is reached after the first of the rounds, then no more than these
are gone through with the limit. -/
theorem exists_ends_of_reached
    {backend : Backend σ}
    {session middle last : Session σ}
    (unsolved : session.status ≠ .unsatisfiable)
    {first rest : List Round}
    (gone : Rounds backend session [] (first ++ rest) last)
    (answered : (last.solve backend).result = .ok .unsatisfiable)
    (firstGone : Rounds backend session [] first middle)
    {bound : Nat}
    (reached : (foundAfter [] first).length = bound) :
    ∃ limited,
      Ends backend (middle.withLimit (some bound)) (foundAfter [] first)
        first.length limited ∧
      ((last.solve backend).session.finish (foundAfter [] (first ++ rest))
        ((first ++ rest).length + 1)).Limited backend bound
          (foundAfter [] (first ++ rest)) limited := by
  have begins : foundAfter [] first <+: foundAfter [] (first ++ rest) := by
    rw [foundAfter, foundAfter, List.foldl_append]
    exact found_isPrefix_foundAfter _ rest
  refine ⟨_, .stopped ?_, ?_⟩
  · rw [stopsAt_withLimit, decide_eq_true reached.ge]
  constructor
  case result =>
    rw [← reached, ← List.prefix_iff_eq_take.mp begins]
    rfl
  case calls =>
    simp only [finish, List.length_append]
    omega
  case tally =>
    intro tally tallies
    have before := firstGone.tally_memory tallies
    have after := gone.tally_memory tallies
    have one := tally_solve tallies answered
    rw [List.length_append] at after
    simp only [finish, tell, withLimit]
    omega
  case status =>
    refine iff_of_false ?_ (Nat.not_lt_of_le (reached ▸ begins.length_le))
    change middle.status ≠ .unsatisfiable
    rw [firstGone.status.1]
    cases first with
    | nil => exact unsolved
    | cons round others => exact Status.noConfusion

/-- If an enumeration without a limit finishes, then it does with a limit. -/
theorem exists_enumerate_withLimit
    {backend : Backend σ}
    {session : Session σ}
    (unlimited : session.settings.limit = none)
    (unsolved : session.status ≠ .unsatisfiable)
    {rounds : Nat}
    {enumeration : Enumeration σ}
    (enumerates : session.enumerate backend rounds = some enumeration)
    {all : List Solution}
    (finishes : enumeration.result = .ok all)
    (bound : Nat) :
    ∃ limited, enumeration.Limited backend bound all limited ∧
      ∀ more, rounds ≤ more →
        (session.withLimit (some bound)).enumerate backend more =
          some limited := by
  obtain ⟨taken, last, gone, inTime, ends⟩ := exists_rounds enumerates
  rw [Nat.zero_add] at ends
  cases ends with
  | stopped stops =>
      rw [gone.settings_eq, Settings.stopsAt, unlimited] at stops
      contradiction
  | failed goesOn fails => cases finishes
  | unblocked round goesOn replies answered fails => cases finishes
  | exhausted goesOn answered =>
      obtain rfl := Except.ok.inj finishes
      rcases gone.withLimit (Nat.zero_le bound) with
        ⟨fits, limitedGone⟩ |
        ⟨first, rest, middle, rfl, reached, firstGone, limitedGone⟩
      · obtain ⟨limited, ends, isLimited⟩ :=
          exists_ends_of_fits answered fits taken.length
        rw [← Nat.zero_add taken.length] at ends
        exact ⟨limited, isLimited, fun more enough =>
          limitedGone.enumerateFrom_eq_some ends (inTime.trans_le enough)⟩
      · obtain ⟨limited, ends, isLimited⟩ :=
          exists_ends_of_reached unsolved gone answered firstGone reached
        rw [List.length_append] at inTime
        rw [← Nat.zero_add first.length] at ends
        exact ⟨limited, isLimited, fun more enough =>
          limitedGone.enumerateFrom_eq_some ends (by omega)⟩

/-- The names in the solutions that an enumeration finds are those of the declared
variables. -/
theorem named_of_enumerate
    {backend : Backend σ}
    {session : Session σ}
    (identifiers : ∀ x ∈ session.problem.vars,
      isIdentifier x.name.toList = true)
    {rounds : Nat}
    {enumeration : Enumeration σ}
    (enumerates : session.enumerate backend rounds = some enumeration)
    {all : List Solution}
    (finishes : enumeration.result = .ok all)
    {solution : Solution}
    (member : solution ∈ all) :
    solution.Named := by
  obtain ⟨taken, last, gone, _, ends⟩ := exists_rounds enumerates
  have same : foundAfter [] taken = all := by
    cases ends with
    | stopped stops => exact Except.ok.inj finishes
    | failed goesOn fails => cases finishes
    | exhausted goesOn answered => exact Except.ok.inj finishes
    | unblocked round goesOn replies answered fails => cases finishes
  rw [← same, foundAfter_nil, List.mem_eraseDups, List.mem_map] at member
  obtain ⟨round, taken, rfl⟩ := member
  obtain ⟨formula, decodes⟩ := gone.exists_decode taken
  intro binding bound
  have named : binding.name ∈ session.problem.vars.map Variable.name :=
    (Problem.lists_of_decode decodes).names_eq ▸ List.mem_map_of_mem bound
  obtain ⟨x, declared, sameName⟩ := List.mem_map.mp named
  exact sameName ▸ identifiers x declared

end Session

namespace Problem

/-- If an enumeration without a limit finishes, with whatever backend, then the
same enumeration with a limit finishes with the first of the solutions, after no
more calls.  It learns that no model is left if and only if the solutions are
fewer than the limit; so a report that says that the search was finished is
printed only if the limit has cut off none of them. -/
theorem enumerate_with_limit
    {text : String}
    {problem : Problem}
    (accepted : Problem.read text = .ok problem)
    {settings : Settings}
    (unlimited : settings.limit = none)
    {σ : Type}
    (memory : σ)
    (files : Files)
    (backend : Backend σ)
    {session : Session σ}
    (started : Session.start problem settings memory files = .ok session)
    {rounds : Nat}
    {enumeration : Session.Enumeration σ}
    (enumerates : session.enumerate backend rounds = some enumeration)
    {all : List Solution}
    (finishes : enumeration.result = .ok all)
    (bound : Nat) :
    ∃ other limited,
      Session.start problem { settings with limit := some bound } memory files =
        .ok other ∧
      (∀ more, rounds ≤ more → other.enumerate backend more = some limited) ∧
      limited.result = .ok (all.take bound) ∧
      limited.calls ≤ enumeration.calls ∧
      (∀ tally, backend.Tallies tally →
        tally limited.session.memory ≤ tally enumeration.session.memory) ∧
      (limited.session.status = .unsatisfiable ↔ all.length < bound) ∧
      ((∃ marker ∈ Report.markers, marker.toList ∈ Text.lines
          (Report.ofEnumeration (all.take bound)
            (limited.session.status = .unsatisfiable) ++ "\n").toList) →
        all.take bound = all) := by
  have wellFormed := wellFormed_of_read accepted
  obtain rfl := Session.eq_fresh_of_start started
  obtain ⟨limited, ⟨result, calls, tally, status⟩, ends⟩ :=
    Session.exists_enumerate_withLimit unlimited (by exact nofun) enumerates
      finishes bound
  refine ⟨_, limited, Session.start_eq_ok problem _ memory files, ends, result,
    calls, tally, status, fun printed => ?_⟩
  have named : ∀ solution ∈ all.take bound, solution.Named :=
    fun solution member => Session.named_of_enumerate
      (fun x declared => (wellFormed.vars x declared).identifier) enumerates
      finishes (List.mem_of_mem_take member)
  have complete := (Report.exists_marker_mem_lines_iff named).mp printed
  exact List.take_of_length_le (status.mp (of_decide_eq_true complete)).le

/-- Two solutions of a problem in two variables are answered, and then that there
is no other; with any limit, the first of the two are found. -/
theorem enumerate_with_limit_two_answers :
    let settings : Settings :=
      { program := "search", input := "in", output := "out" }
    let answers := ["SAT\n5 6 0\n", "SAT\n5 4 0\n", "UNSAT\n"]
    let all : List Solution :=
      [⟨[⟨"x", 0⟩, ⟨"y", 0⟩]⟩, ⟨[⟨"x", 0⟩, ⟨"y", 1⟩]⟩]
    Problem.read "x 0 1 y 0 1 [x+y<=1 -(x!=1)]" = .ok twoVariables ∧
      ∃ session enumeration,
        Session.start twoVariables settings answers {} = .ok session ∧
        session.enumerate answersInTurn 3 = some enumeration ∧
        enumeration.result = .ok all ∧
        ∀ bound, ∃ other limited,
          Session.start twoVariables { settings with limit := some bound }
            answers {} = .ok other ∧
          (∀ more, 3 ≤ more → other.enumerate answersInTurn more = some limited) ∧
          limited.result = .ok (all.take bound) ∧
          limited.calls ≤ enumeration.calls ∧
          (limited.session.status = .unsatisfiable ↔ 2 < bound) := by
  intro settings answers all
  have started := Session.start_eq_ok twoVariables settings answers {}
  have ends : ((Session.fresh twoVariables settings answers {}).enumerate
      answersInTurn 3).map Session.Enumeration.result = some (.ok all) := by
    decide +kernel
  obtain ⟨enumeration, enumerates, finishes⟩ := Option.map_eq_some_iff.mp ends
  refine ⟨read_twoVariables, _, enumeration, started, enumerates, finishes,
    fun bound => ?_⟩
  obtain ⟨other, limited, startsOther, again, result, calls, _, status, _⟩ :=
    enumerate_with_limit read_twoVariables rfl answers {} answersInTurn started
      enumerates finishes bound
  exact ⟨other, limited, startsOther, again, result, calls, status⟩

end Problem
end OrderEncoding
