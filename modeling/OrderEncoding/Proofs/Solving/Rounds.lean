import OrderEncoding.Proofs.Repetitions
import OrderEncoding.Proofs.Solving.Enumeration

/-!
# Rounds of an enumeration

An enumeration goes through rounds: it takes up a model, reports its solution
unless it was found before, and blocks the model.  It ends with a session that
allows no further round, because the limit is reached, the question fails, no
model is left, or the model cannot be blocked.
-/

namespace OrderEncoding

/-- A model that an enumeration takes up, and the solution that it stands for. -/
structure Round where
  model : List Int
  solution : Solution

namespace Session

variable {σ : Type}

/-! ## The solutions of rounds -/

/-- The solutions that are found when some rounds follow. -/
def foundAfter (found : List Solution) (taken : List Round) : List Solution :=
  taken.foldl (fun found round => found ++ news found round.solution) found

theorem foundAfter_cons
    (found : List Solution)
    (round : Round)
    (rest : List Round) :
    foundAfter found (round :: rest) =
      foundAfter (found ++ news found round.solution) rest := rfl

theorem found_isPrefix_foundAfter
    (found : List Solution)
    (taken : List Round) :
    found <+: foundAfter found taken := by
  induction taken generalizing found with
  | nil => exact List.prefix_rfl
  | cons round rest inductionHypothesis =>
      exact (List.prefix_append _ _).trans (inductionHypothesis _)

/-- A solution that was seen before is dropped. -/
theorem eraseDups_append_singleton
    (seen : List Solution)
    (solution : Solution) :
    (seen ++ [solution]).eraseDups =
      seen.eraseDups ++ news seen.eraseDups solution := by
  by_cases old : solution ∈ seen
  · simp [news, eraseDups_append_of_mem old, old]
  · simp [news, eraseDups_append_of_notMem old, old]

/-- What is found is what was seen, without repetitions. -/
theorem foundAfter_eraseDups
    (seen : List Solution)
    (taken : List Round) :
    foundAfter seen.eraseDups taken =
      (seen ++ taken.map Round.solution).eraseDups := by
  induction taken generalizing seen with
  | nil =>
      rw [List.map_nil, List.append_nil]
      rfl
  | cons round rest inductionHypothesis =>
      rw [foundAfter_cons, ← eraseDups_append_singleton, inductionHypothesis,
        List.append_assoc]
      rfl

theorem foundAfter_nil (taken : List Round) :
    foundAfter [] taken = (taken.map Round.solution).eraseDups :=
  foundAfter_eraseDups [] taken

/-! ## Sessions between rounds -/

/-- Rounds of an enumeration that has found some solutions lead from a session to
another one. -/
inductive Rounds (backend : Backend σ) :
    Session σ → List Solution → List Round → Session σ → Prop
  | nil
      {session : Session σ}
      {found : List Solution} :
      Rounds backend session found [] session
  | cons
      {session : Session σ}
      {found : List Solution}
      (round : Round)
      (goesOn : session.settings.stopsAt found.length = false)
      {call : BackendCall σ}
      (replies : Replies backend session call (.model round.model))
      (answered : (session.solve backend).result =
        .ok (.satisfiable round.solution))
      {blocked : Session σ}
      (blocks : (session.solve backend).session.blockLastModel =
        blocked.done ())
      {rest : List Round}
      {last : Session σ}
      (others : Rounds backend blocked (found ++ news found round.solution) rest
        last) :
      Rounds backend session found (round :: rest) last

/-! ## What rounds leave -/

/-- A round changes neither the problem nor the settings, also if its model cannot
be blocked. -/
theorem problem_of_round
    {backend : Backend σ}
    {session next : Session σ}
    {result : Except Failure Unit}
    (blocks : (session.solve backend).session.blockLastModel =
      { session := next, result }) :
    next.problem = session.problem ∧ next.settings = session.settings := by
  have alike := session.solve_alike backend
  rw [← alike.problem, ← alike.settings]
  obtain rfl := congrArg Step.session blocks
  rw [blockLastModel]
  split
  next => exact ⟨rfl, rfl⟩
  next model last =>
    dsimp only
    split
    next => exact ⟨rfl, rfl⟩
    next clause made =>
      split
      next => exact ⟨rfl, rfl⟩
      next => exact ⟨rfl, rfl⟩

theorem Rounds.settings_eq
    {backend : Backend σ}
    {session last : Session σ}
    {found : List Solution}
    {taken : List Round}
    (gone : Rounds backend session found taken last) :
    last.settings = session.settings := by
  induction gone with
  | nil => rfl
  | cons round goesOn replies answered blocks others inductionHypothesis =>
      exact inductionHypothesis.trans (problem_of_round blocks).2

/-- The solution of a round is what its model is decoded to. -/
theorem Rounds.exists_decode
    {backend : Backend σ}
    {session last : Session σ}
    {found : List Solution}
    {taken : List Round}
    (gone : Rounds backend session found taken last)
    {round : Round}
    (member : round ∈ taken) :
    ∃ formula, session.problem.decode formula round.model = .ok round.solution := by
  induction gone with
  | nil => cases member
  | cons first goesOn replies answered blocks others inductionHypothesis =>
      rcases List.mem_cons.mp member with rfl | later
      · exact ⟨_, (replies.decodes answered).1⟩
      · rw [← (problem_of_round blocks).1]
        exact inductionHypothesis later

/-- After a round, the session remembers that it has found a model, and the model
itself is no longer held. -/
theorem status_of_round
    {backend : Backend σ}
    {session : Session σ}
    {call : BackendCall σ}
    {numbers : List Int}
    (replies : Replies backend session call (.model numbers))
    {solution : Solution}
    (answered : (session.solve backend).result = .ok (.satisfiable solution))
    {next : Session σ}
    (blocks : (session.solve backend).session.blockLastModel = next.done ()) :
    next.status = .satisfiable ∧ next.lastModel = none := by
  obtain ⟨_, satisfiable, _⟩ := replies.decodes answered
  rcases eq_or_eq_blocked_of_blockLastModel blocks with
    ⟨noModel, rfl⟩ | ⟨clause, rfl⟩
  · exact ⟨satisfiable, noModel⟩
  · exact ⟨satisfiable, rfl⟩

/-- What a session remembers after rounds: what it did before if there were none,
and that it has found a model otherwise. -/
theorem Rounds.status
    {backend : Backend σ}
    {session last : Session σ}
    {found : List Solution}
    {taken : List Round}
    (gone : Rounds backend session found taken last) :
    last.status = (if taken.isEmpty then session.status else .satisfiable) ∧
      last.lastModel = (if taken.isEmpty then session.lastModel else none) := by
  induction gone with
  | nil => exact ⟨rfl, rfl⟩
  | cons round goesOn replies answered blocks others inductionHypothesis =>
      obtain ⟨satisfiable, noModel⟩ := status_of_round replies answered blocks
      rw [satisfiable, noModel, ite_self, ite_self] at inductionHypothesis
      exact inductionHypothesis

/-! ## The end of an enumeration -/

/-- An enumeration ends with a session, without a further round. -/
inductive Ends
    (backend : Backend σ)
    (last : Session σ)
    (found : List Solution)
    (calls : Nat) :
    Enumeration σ → Prop
  /-- The limit is reached. -/
  | stopped
      (stops : last.settings.stopsAt found.length = true) :
      Ends backend last found calls (last.finish found calls)
  /-- The question fails. -/
  | failed
      (goesOn : last.settings.stopsAt found.length = false)
      {failure : Failure}
      (fails : (last.solve backend).result = .error failure) :
      Ends backend last found calls
        { session := (last.solve backend).session
          reported := found
          calls
          result := .error (failure.within (.seekingSolution (calls + 1))) }
  /-- No model is left. -/
  | exhausted
      (goesOn : last.settings.stopsAt found.length = false)
      (answered : (last.solve backend).result = .ok .unsatisfiable) :
      Ends backend last found calls
        ((last.solve backend).session.finish found (calls + 1))
  /-- The solution of a model is reported, but the model cannot be blocked. -/
  | unblocked
      (round : Round)
      (goesOn : last.settings.stopsAt found.length = false)
      {call : BackendCall σ}
      (replies : Replies backend last call (.model round.model))
      (answered : (last.solve backend).result =
        .ok (.satisfiable round.solution))
      {failed : Session σ}
      {failure : Failure}
      (fails : (last.solve backend).session.blockLastModel =
        failed.fail failure) :
      Ends backend last found calls
        { session := failed
          reported := found ++ news found round.solution
          calls := calls + 1
          result := .error failure }

/-- An enumeration goes through rounds to the session that it ends with. -/
theorem exists_rounds
    {backend : Backend σ}
    {rounds : Nat}
    {session : Session σ}
    {found : List Solution}
    {calls : Nat}
    {enumeration : Enumeration σ}
    (enumerates : enumerateFrom backend rounds session found calls =
      some enumeration) :
    ∃ taken last, Rounds backend session found taken last ∧
      taken.length < rounds ∧
      Ends backend last (foundAfter found taken) (calls + taken.length)
        enumeration := by
  induction rounds generalizing session found calls with
  | zero => contradiction
  | succ rounds inductionHypothesis =>
      have endsHere : Ends backend session found calls enumeration →
          ∃ taken last, Rounds backend session found taken last ∧
            taken.length < rounds + 1 ∧
            Ends backend last (foundAfter found taken) (calls + taken.length)
              enumeration :=
        fun ends => ⟨[], session, .nil, Nat.succ_pos rounds, ends⟩
      rw [enumerateFrom] at enumerates
      split at enumerates
      next stops =>
        cases enumerates
        exact endsHere (.stopped stops)
      next going =>
        have goesOn := Bool.eq_false_iff.mpr going
        cases session.solved_solve backend with
        | failed failure result =>
            simp only [result, Option.some.injEq] at enumerates
            subst enumerates
            exact endsHere (.failed goesOn result)
        | exhausted call replies result =>
            simp only [result, Option.some.injEq] at enumerates
            subst enumerates
            exact endsHere (.exhausted goesOn result)
        | found call numbers solution replies decodes result =>
            rcases blocks : (session.solve backend).session.blockLastModel with
              ⟨blocked, failure | _⟩
            · simp only [result, append_news, blocks, Option.some.injEq]
                at enumerates
              subst enumerates
              exact endsHere
                (.unblocked ⟨numbers, solution⟩ goesOn replies result blocks)
            · simp only [result, append_news, blocks] at enumerates
              obtain ⟨taken, last, others, fewer, ends⟩ :=
                inductionHypothesis enumerates
              rw [Nat.add_right_comm, Nat.add_assoc] at ends
              exact ⟨⟨numbers, solution⟩ :: taken, last,
                .cons _ goesOn replies result blocks others,
                Nat.succ_lt_succ fewer, ends⟩

/-- An enumeration that comes to its end in a session takes one round more. -/
theorem Ends.enumerateFrom_eq_some
    {backend : Backend σ}
    {last : Session σ}
    {found : List Solution}
    {calls : Nat}
    {enumeration : Enumeration σ}
    (ends : Ends backend last found calls enumeration)
    (rounds : Nat) :
    enumerateFrom backend (rounds + 1) last found calls = some enumeration := by
  cases ends with
  | stopped stops => rw [enumerateFrom, if_pos stops]
  | failed goesOn fails =>
      simp only [enumerateFrom, goesOn, if_neg Bool.false_ne_true, fails]
  | exhausted goesOn answered =>
      simp only [enumerateFrom, goesOn, if_neg Bool.false_ne_true, answered]
  | unblocked round goesOn replies answered fails =>
      simp only [enumerateFrom, goesOn, if_neg Bool.false_ne_true, answered,
        fails, fail, append_news]

/-- Rounds are gone through if the end comes in time. -/
theorem Rounds.enumerateFrom_eq_some
    {backend : Backend σ}
    {session last : Session σ}
    {found : List Solution}
    {taken : List Round}
    (gone : Rounds backend session found taken last)
    {calls : Nat}
    {enumeration : Enumeration σ}
    (ends : Ends backend last (foundAfter found taken) (calls + taken.length)
      enumeration)
    {rounds : Nat}
    (enough : taken.length < rounds) :
    enumerateFrom backend rounds session found calls = some enumeration := by
  obtain ⟨earlier, rfl⟩ := Nat.exists_eq_add_one_of_ne_zero
    (Nat.ne_zero_of_lt enough)
  induction gone generalizing calls earlier with
  | nil => exact ends.enumerateFrom_eq_some earlier
  | @cons session found round goesOn call replies answered blocked blocks rest
      last others inductionHypothesis =>
      rw [List.length_cons] at enough
      obtain ⟨before, rfl⟩ := Nat.exists_eq_add_one_of_ne_zero
        (Nat.ne_zero_of_lt (Nat.lt_of_succ_lt_succ enough))
      have solves : session.solve backend =
          (session.solve backend).session.done (.satisfiable round.solution) :=
        congrArg (Step.mk _) answered
      rw [enumerateFrom_of_satisfiable goesOn solves blocks]
      refine inductionHypothesis ?_ before (Nat.lt_of_succ_lt_succ enough)
      rwa [Nat.add_right_comm, Nat.add_assoc]

end Session
end OrderEncoding
