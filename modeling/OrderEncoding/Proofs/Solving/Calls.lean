import OrderEncoding.Proofs.Encoding.Counting
import OrderEncoding.Proofs.Solving.Rounds

/-!
# Counting the calls of an enumeration

A backend can count its calls in its memory.  An enumeration calls an honest
backend once for each model of the problem's formula that blocking tells apart,
and once more to learn that no model is left.
-/

namespace OrderEncoding

variable {σ : Type}

/-- The backend that counts its calls, beside what it remembers. -/
def Backend.counting (backend : Backend σ) : Backend (σ × Nat) :=
  fun memory input output files =>
    let call := backend memory.1 input output files
    { result := call.result
      memory := (call.memory, memory.2 + 1)
      files := call.files
      events := call.events }

/-- A backend answers the same clauses while its calls are counted. -/
theorem Backend.Honest.counting
    {backend : Backend σ}
    {input output : String}
    {atomCount clauseCount : Nat}
    (honest : backend.Honest input output atomCount clauseCount) :
    backend.counting.Honest input output atomCount clauseCount := by
  intro memory files numbered comment inRange sameAtoms bounded usable written
    nothingLeft
  obtain ⟨succeeds, usableAfter, verdict⟩ := honest memory.1 files numbered
    comment inRange sameAtoms bounded usable written nothingLeft
  exact ⟨succeeds, usableAfter, verdict⟩

/-- With every call, a backend adds one to a tally in its memory. -/
def Backend.Tallies (backend : Backend σ) (tally : σ → Nat) : Prop :=
  ∀ memory input output files,
    tally (backend memory input output files).memory = tally memory + 1

theorem Backend.tallies_counting (backend : Backend σ) :
    backend.counting.Tallies Prod.snd :=
  fun _ _ _ _ => rfl

namespace Session

section Tally

variable
  {backend : Backend σ}
  {tally : σ → Nat}
  (tallies : backend.Tallies tally)
include tallies

/-- A question that is answered is one call. -/
theorem tally_solve
    {session : Session σ}
    {outcome : Outcome}
    (answered : (session.solve backend).result = .ok outcome) :
    tally (session.solve backend).session.memory = tally session.memory + 1 := by
  cases session.solved_solve backend with
  | failed failure result kept =>
      rw [result] at answered
      contradiction
  | exhausted call replies result alike memory status lastModel =>
      obtain ⟨files, _, rfl⟩ := replies.called
      rw [memory, tallies]
  | found call numbers solution replies decodes result alike memory status
      lastModel =>
      obtain ⟨files, _, rfl⟩ := replies.called
      rw [memory, tallies]

/-- Every round is one call. -/
theorem Rounds.tally_memory
    {session last : Session σ}
    {found : List Solution}
    {taken : List Round}
    (gone : Rounds backend session found taken last) :
    tally last.memory = tally session.memory + taken.length := by
  induction gone with
  | nil => rfl
  | @cons session found round goesOn call replies answered blocked blocks rest
      last others inductionHypothesis =>
      have one := tally_solve tallies answered
      have same : blocked.memory = (session.solve backend).session.memory := by
        rcases eq_or_eq_blocked_of_blockLastModel blocks with
          ⟨_, rfl⟩ | ⟨clause, rfl⟩
        · rfl
        · rfl
      rw [inductionHypothesis, same, one, List.length_cons]
      omega

/-- An enumeration that finishes tells how often it has called the backend. -/
theorem tally_enumerateFrom
    {rounds : Nat}
    {session : Session σ}
    {found : List Solution}
    {calls : Nat}
    {enumeration : Enumeration σ}
    (enumerates : enumerateFrom backend rounds session found calls =
      some enumeration)
    {all : List Solution}
    (finishes : enumeration.result = .ok all) :
    tally enumeration.session.memory + calls =
      tally session.memory + enumeration.calls := by
  obtain ⟨taken, last, gone, _, ends⟩ := exists_rounds enumerates
  have before := gone.tally_memory tallies
  cases ends with
  | stopped stops =>
      simp only [finish, tell]
      omega
  | failed goesOn fails => cases finishes
  | exhausted goesOn answered =>
      have one := tally_solve tallies answered
      simp only [finish, tell]
      omega
  | unblocked round goesOn replies answered fails => cases finishes

end Tally

theorem count_enumerateFrom
    {backend : Backend σ}
    {rounds : Nat}
    {session : Session (σ × Nat)}
    {found : List Solution}
    {calls : Nat}
    {enumeration : Enumeration (σ × Nat)}
    (ends : enumerateFrom backend.counting rounds session found calls =
      some enumeration)
    {all : List Solution}
    (finishes : enumeration.result = .ok all) :
    enumeration.session.memory.2 + calls =
      session.memory.2 + enumeration.calls :=
  tally_enumerateFrom backend.tallies_counting ends finishes

end Session

namespace Problem

/-- An enumeration with an honest backend calls it once for each model of the
problem that blocking tells apart, and once more. -/
theorem enumerate_call_count
    {text : String}
    {problem : Problem}
    (accepted : Problem.read text = .ok problem)
    {settings : Settings}
    (unlimited : settings.limit = none)
    {files : Files}
    (usable : files.Usable settings.input settings.output)
    {σ : Type}
    (memory : σ)
    {backend : Backend σ}
    (honest : backend.Honest settings.input settings.output
      problem.formula.atoms.length
      (problem.formula.clauses.length + 2 ^ problem.formula.atoms.length)) :
    ∃ session, Session.start problem settings (memory, 0) files = .ok session ∧
      ∃ (enumeration : Session.Enumeration (σ × Nat)) (enough : Nat),
        (∀ rounds, enough < rounds →
          session.enumerate backend.counting rounds = some enumeration) ∧
        (∃ found, enumeration.result = .ok found ∧
          found.length = problem.solutions.length) ∧
        enumeration.calls = problem.modelCount settings.blocking + 1 ∧
        enumeration.session.memory.2 =
          problem.modelCount settings.blocking + 1 := by
  have wellFormed := wellFormed_of_read accepted
  have started := Session.start_eq_ok problem settings (memory, 0) files
  have enumerating :=
    Session.enumerating_start wellFormed settings (memory, 0) usable started
  obtain ⟨enumeration, ends, ⟨⟨found, finds, nodup, exact⟩, _⟩, calls⟩ :=
    enumerating.exists_enumerateFrom_calls wellFormed unlimited honest.counting 0
  have counted : enumeration.session.memory.2 + 0 = 0 + enumeration.calls :=
    Session.count_enumerateFrom (ends _ (Nat.lt_succ_self _)) finds
  rw [Session.fresh, card_classes_formula wellFormed] at calls
  refine ⟨_, started, enumeration, _, ends, ⟨found, finds, ?_⟩, ?_, ?_⟩
  · refine List.Perm.length_eq ((List.perm_ext_iff_of_nodup nodup
      problem.nodup_solutions).mpr fun solution => ?_)
    rw [exact, mem_solutions_iff wellFormed]
    exact exists_congr fun value =>
      and_congr_right fun _ => and_congr_right fun _ => eq_comm
  · omega
  · omega

/-- The built-in search is called five times to enumerate the four solutions of a
problem in two variables when solutions alone are blocked, and seventeen times
when all of its sixteen models are. -/
theorem enumerate_call_count_two_variables :
    Problem.read "x 0 1 y 0 1 [x+y<=1 -(x!=1)]" = .ok twoVariables ∧
      twoVariables.modelCount .projected = 4 ∧
      twoVariables.modelCount .fullAssignment = 16 ∧
      ∀ blocking, ∃ session, Session.start twoVariables
          { program := "search", input := "in", output := "out", blocking }
          ((), 0) {} = .ok session ∧
        ∃ (enumeration : Session.Enumeration (Unit × Nat)) (enough : Nat),
          (∀ rounds, enough < rounds →
            session.enumerate (Search.backend false).counting rounds =
              some enumeration) ∧
          (∃ found, enumeration.result = .ok found ∧
            found.length = twoVariables.solutions.length) ∧
          enumeration.calls = twoVariables.modelCount blocking + 1 ∧
          enumeration.session.memory.2 =
            twoVariables.modelCount blocking + 1 := by
  have few : twoVariables.modelCount .projected = 4 := by decide +kernel
  have many : twoVariables.modelCount .fullAssignment = 16 := by decide +kernel
  exact ⟨read_twoVariables, few, many, fun blocking =>
    enumerate_call_count read_twoVariables rfl usable_in_out ()
      honest_search_twoVariables⟩

end Problem
end OrderEncoding
