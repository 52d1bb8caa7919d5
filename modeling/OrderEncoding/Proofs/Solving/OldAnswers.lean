import OrderEncoding.Proofs.Solving.Enumeration

/-!
# Old answers

What is at the output before a question makes no difference to it: it is removed
before the backend is called, and only what the backend leaves is read.  So two
sessions that differ in an old answer only go the same way, question by question,
through whole enumerations.
-/

namespace OrderEncoding

variable {σ α : Type}

/-! ## Backends that look at files alike -/

/-- Calls that cannot be told apart by what they leave behind. -/
structure BackendCall.Alike (first second : BackendCall σ) : Prop where
  result : first.result = second.result
  memory : first.memory = second.memory
  files : first.files.Alike second.files
  events : first.events = second.events

/-- A backend does the same with files that look alike. -/
def Backend.Extensional (backend : Backend σ) : Prop :=
  ∀ memory input output (first second : Files), first.Alike second →
    (backend memory input output first).Alike
      (backend memory input output second)

/-- Calls with different files that end in the same way, and change these files
alike. -/
structure BackendCall.SameChanges
    (first second : Files)
    (call other : BackendCall σ) : Prop where
  result : call.result = other.result
  memory : call.memory = other.memory
  files : Files.ChangedAlike first call.files second other.files
  events : call.events = other.events

/-- What a backend does depends on its memory and on the input only, within the
same directories. -/
def Backend.DependsOnInput (backend : Backend σ) : Prop :=
  ∀ memory input output (first second : Files),
    first.directories = second.directories →
    first.read input = second.read input →
    BackendCall.SameChanges first second (backend memory input output first)
      (backend memory input output second)

theorem Backend.DependsOnInput.extensional
    {backend : Backend σ}
    (depends : backend.DependsOnInput) :
    backend.Extensional := by
  intro memory input output first second alike
  obtain ⟨result, sameMemory, ⟨directories, changes⟩, events⟩ := depends memory
    input output first second alike.directories (alike.read_eq input)
  refine ⟨result, sameMemory, ⟨directories, fun plain => ?_⟩, events⟩
  rcases changes plain with same | ⟨kept, otherKept⟩
  · exact same
  · rw [kept, otherKept, alike.lookup?]

/-- The search depends on the input only. -/
theorem Search.dependsOnInput_backend (preferred : Bool) :
    (backend preferred).DependsOnInput := by
  intro memory input output first second directories same
  have textAt : first.readText? input = second.readText? input := by
    simp only [Files.readText?, same]
  have fails : ∀ failure,
      run preferred input output first = .error failure →
      run preferred input output second = .error failure →
      BackendCall.SameChanges first second
        (backend preferred memory input output first)
        (backend preferred memory input output second) := by
    intro failure ends otherEnds
    simp only [backend, ends, otherEnds]
    exact ⟨rfl, rfl, Files.changedAlike_self directories, rfl⟩
  cases found : second.readText? input with
  | none =>
      refine fails (.of .system) ?_ ?_
      · simp only [run, textAt, found]
      · simp only [run, found]
  | some text =>
      cases reads : NumberedClauses.read text with
      | error failure =>
          refine fails failure ?_ ?_
          · simp only [run, textAt, found, reads]
            rfl
          · simp only [run, found, reads]
            rfl
      | ok numbered =>
          rcases Files.write_changedAlike directories output
              (.text (answer preferred numbered)) with
            ⟨fault, other, refuses, otherRefuses⟩ |
            ⟨written, other, writes, otherWrites, _, changed⟩
          · refine fails (.of .system) ?_ ?_
            · simp only [run, textAt, found, reads, bind, Except.bind, refuses]
            · simp only [run, found, reads, bind, Except.bind, otherRefuses]
          · simp only [backend, run, textAt, found, reads, bind, Except.bind,
              writes, otherWrites]
            exact ⟨rfl, rfl, changed, rfl⟩

namespace Session

/-! ## Sessions with an old answer -/

/-- Two sessions are the same but for what is at their output. -/
def Resembles (first second : Session σ) : Prop :=
  ∃ files, second = { first with files } ∧
    first.files.AlikeBesides first.settings.output files

end Session

/-- Two steps have the same result, and end with sessions that are the same but
for what is at their output. -/
structure Step.Resembles (first second : Step σ α) : Prop where
  result : first.result = second.result
  session : first.session.Resembles second.session

namespace Session

theorem Resembles.fail
    {first second : Session σ}
    (resembles : first.Resembles second)
    (failure : Failure) :
    (first.fail failure : Step σ α).Resembles (second.fail failure) :=
  ⟨rfl, resembles⟩

theorem Resembles.exportFormula
    {first second : Session σ}
    (resembles : first.Resembles second) :
    first.exportFormula.Resembles second.exportFormula := by
  obtain ⟨files, rfl, alike⟩ := id resembles
  cases made : first.formula.toDimacs first.settings.comment with
  | error failure =>
      simp only [Session.exportFormula, made]
      exact resembles.fail failure
  | ok text =>
      rcases Files.write_changedAlike alike.directories first.settings.input
          (.text text) with
        ⟨fault, other, refuses, otherRefuses⟩ |
        ⟨written, other, writes, otherWrites, same, changed⟩
      · simp only [Session.exportFormula, made, refuses, otherRefuses]
        exact resembles.fail _
      · simp only [Session.exportFormula, made, writes, otherWrites]
        exact ⟨rfl, other, rfl, alike.changed same changed⟩

theorem Resembles.accept
    {first second : Session σ}
    (resembles : first.Resembles second)
    (verdict : Verdict) :
    (first.accept verdict).Resembles (second.accept verdict) := by
  obtain ⟨files, rfl, alike⟩ := id resembles
  cases verdict with
  | unsatisfiable => exact ⟨rfl, files, rfl, alike⟩
  | model numbers =>
      cases decodes : first.problem.decode first.formula numbers with
      | error failure =>
          simp only [Session.accept, decodes]
          exact resembles.fail failure
      | ok solution =>
          simp only [Session.accept, decodes]
          exact ⟨rfl, files, rfl, alike⟩

/-- What is read after the backend was called is what it left. -/
theorem readOutput_resembles
    {session : Session σ}
    {files : Files}
    (alike : session.files.Alike files) :
    session.readOutput.Resembles { session with files }.readOutput := by
  have resembles : session.Resembles { session with files } :=
    ⟨files, rfl, alike.besides _⟩
  have textAt := alike.readText?_eq session.settings.output
  simp only [readOutput, ← textAt]
  split
  next => exact resembles.fail _
  next text textAt =>
    split
    next failure fails => exact resembles.fail failure
    next verdict reads => exact resembles.accept verdict

/-- A call is not prepared for the same reason, or it is, with files that look
alike: nothing is at the output, whatever was there. -/
theorem Resembles.prepare_cases
    {first second : Session σ}
    (resembles : first.Resembles second) :
    (∃ (failed otherFailed : Session σ) (failure : Failure),
      first.prepare = failed.fail failure ∧
        second.prepare = otherFailed.fail failure ∧
        failed.Resembles otherFailed) ∨
    ∃ (prepared : Session σ) (files : Files),
      first.prepare = prepared.done () ∧
        second.prepare = { prepared with files }.done () ∧
        prepared.files.Alike files := by
  have exported := resembles.exportFormula
  have settings : second.settings = first.exportFormula.session.settings := by
    obtain ⟨files, rfl, _⟩ := resembles
    exact first.exportFormula_kept.settings.symm
  simp only [prepare, ← exported.result, settings,
    ← first.exportFormula_kept.settings]
  split
  next failure fails => exact .inl ⟨_, _, failure, rfl, rfl, exported.session⟩
  next succeeds =>
    obtain ⟨files, same, alike⟩ := id exported.session
    rcases alike.clear with
      ⟨fault, other, refuses, otherRefuses⟩ |
      ⟨cleared, other, clears, otherClears, clearedAlike⟩
    · refine .inl ⟨_, _,
        .of (.artifact first.exportFormula.session.settings.output), ?_, ?_,
        exported.session⟩
      · rw [refuses]
      · rw [same, otherRefuses]
    · refine .inr ⟨{ first.exportFormula.session with files := cleared }, other,
        ?_, ?_, clearedAlike⟩
      · rw [clears]
      · rw [same, otherClears]

/-- Calls with files that look alike are answered alike. -/
theorem callBackend_resembles
    {backend : Backend σ}
    (extensional : backend.Extensional)
    {session : Session σ}
    {files : Files}
    (alike : session.files.Alike files) :
    (session.callBackend backend).Resembles
      ({ session with files }.callBackend backend) := by
  have calls := extensional session.memory session.settings.input
    session.settings.output session.files files alike
  simp only [callBackend, ← calls.result, ← calls.memory, ← calls.events]
  split
  next failure fails => exact ⟨rfl, _, rfl, calls.files.besides _⟩
  next succeeds => exact readOutput_resembles calls.files

/-- A question comes to the same whatever is at the output before. -/
theorem Resembles.solve
    {backend : Backend σ}
    (extensional : backend.Extensional)
    {first second : Session σ}
    (resembles : first.Resembles second) :
    (first.solve backend).Resembles (second.solve backend) := by
  rcases resembles.prepare_cases with
    ⟨failed, otherFailed, failure, fails, otherFails, failedAlike⟩ |
    ⟨prepared, files, prepares, otherPrepares, alike⟩
  · rw [Session.solve, Session.solve, fails, otherFails]
    exact failedAlike.fail failure
  · rw [Session.solve, Session.solve, prepares, otherPrepares]
    exact callBackend_resembles extensional alike

theorem Resembles.blockLastModel
    {first second : Session σ}
    (resembles : first.Resembles second) :
    first.blockLastModel.Resembles second.blockLastModel := by
  obtain ⟨files, rfl, alike⟩ := id resembles
  simp only [Session.blockLastModel]
  split
  next => exact ⟨rfl, files, rfl, alike⟩
  next model last =>
    split
    next => exact ⟨rfl, files, rfl, alike⟩
    next clause made =>
      split
      next => exact ⟨rfl, files, rfl, alike⟩
      next formula added => exact ⟨rfl, files, rfl, alike⟩

/-- Two enumerations report the same solutions, in as many calls, with the same
result, and end with sessions that are the same but for what is at their
output. -/
structure Enumeration.Resembles (first second : Enumeration σ) : Prop where
  session : first.session.Resembles second.session
  reported : first.reported = second.reported
  calls : first.calls = second.calls
  result : first.result = second.result

theorem Resembles.finish
    {first second : Session σ}
    (resembles : first.Resembles second)
    (found : List Solution)
    (calls : Nat) :
    (first.finish found calls).Resembles (second.finish found calls) := by
  obtain ⟨files, rfl, alike⟩ := resembles
  exact ⟨⟨files, rfl, alike⟩, rfl, rfl, rfl⟩

/-- Enumerations go the same way from round to round. -/
theorem Resembles.enumerateFrom
    {backend : Backend σ}
    (extensional : backend.Extensional)
    {first second : Session σ}
    (resembles : first.Resembles second)
    (rounds : Nat)
    (found : List Solution)
    (calls : Nat) :
    Option.Rel Enumeration.Resembles
      (Session.enumerateFrom backend rounds first found calls)
      (Session.enumerateFrom backend rounds second found calls) := by
  induction rounds generalizing first second found calls with
  | zero => exact .none
  | succ rounds inductionHypothesis =>
      have solved := resembles.solve extensional
      have blocked := solved.session.blockLastModel
      have settings : first.settings = second.settings := by
        obtain ⟨files, rfl, _⟩ := resembles
        rfl
      simp only [Session.enumerateFrom, ← settings, ← solved.result,
        ← blocked.result]
      split
      next stops => exact .some (resembles.finish found calls)
      next goesOn =>
        split
        next failure fails => exact .some ⟨solved.session, rfl, rfl, rfl⟩
        next exhausted =>
          exact .some (solved.session.finish found (calls + 1))
        next solution answered =>
          split
          next failure fails => exact .some ⟨blocked.session, rfl, rfl, rfl⟩
          next blocks => exact inductionHypothesis blocked.session _ (calls + 1)

/-- A backend that leaves the output as it was handed over has left no answer. -/
theorem solve_of_untouched
    {backend : Backend σ}
    (session : Session σ)
    {handed : Files}
    (hands : session.handover = some handed)
    {call : BackendCall σ}
    (called : call = backend session.memory session.settings.input
      session.settings.output handed)
    (succeeds : call.result = .ok ())
    (untouched : call.files.readText? session.settings.output =
      handed.readText? session.settings.output) :
    (session.solve backend).result =
      .error { contexts := [.readingOutput]
               cause := .artifact session.settings.output } := by
  obtain ⟨_, _, _, _, clears⟩ := handover_eq_some_iff.mp hands
  have nothingLeft := untouched.trans (Files.readText?_of_clear clears)
  obtain ⟨asked, solves, kept, same⟩ :=
    exists_solve_eq_readOutput hands called succeeds
  rw [← same, ← kept.settings] at nothingLeft
  rw [solves, ← kept.settings]
  simp only [readOutput, nothingLeft]
  rfl

end Session

/-- Whatever is at the output when a session asks a backend, or enumerates, it
gets the same results and ends the same, but for what is at the output, if the
backend does the same with files that look alike.  A backend that leaves the
output as it was handed over leaves none, so the question fails. -/
theorem old_answers_unread
    {backend : Backend σ}
    (extensional : backend.Extensional)
    {session : Session σ}
    {files : Files}
    (alike : session.files.AlikeBesides session.settings.output files) :
    (session.solve backend).Resembles
      ({ session with files }.solve backend) ∧
    (∀ rounds, Option.Rel Session.Enumeration.Resembles
      (session.enumerate backend rounds)
      ({ session with files }.enumerate backend rounds)) ∧
    ∀ handed call, session.handover = some handed →
      call = backend session.memory session.settings.input
        session.settings.output handed →
      call.result = .ok () →
      call.files.readText? session.settings.output =
        handed.readText? session.settings.output →
      (session.solve backend).result =
        .error { contexts := [.readingOutput]
                 cause := .artifact session.settings.output } := by
  have resembles : session.Resembles { session with files } :=
    ⟨files, rfl, alike⟩
  refine ⟨resembles.solve extensional, fun rounds =>
    resembles.enumerateFrom extensional rounds [] 0, ?_⟩
  intro handed call hands called succeeds untouched
  exact session.solve_of_untouched hands called succeeds untouched

/-- A backend that leaves no answer. -/
def silent : Backend Unit :=
  fun _ _ _ files => { result := .ok (), memory := (), files }

theorem extensional_silent : silent.Extensional :=
  fun _ _ _ _ _ alike => ⟨rfl, rfl, alike, rfl⟩

/-- An old answer that a problem in two variables has no solution makes no
difference to the search, and is not read when a backend leaves no answer. -/
theorem old_answers_unread_two_variables :
    ∃ session, Session.start Problem.twoVariables
        { program := "search", input := "in", output := "out" } ()
        { entries := [⟨"out", .text "UNSAT\n"⟩] } = .ok session ∧
      session.files.AlikeBesides "out" {} ∧
      (session.solve (Search.backend false)).Resembles
        ({ session with files := {} }.solve (Search.backend false)) ∧
      (∀ rounds, Option.Rel Session.Enumeration.Resembles
        (session.enumerate (Search.backend false) rounds)
        ({ session with files := {} }.enumerate (Search.backend false) rounds)) ∧
      (session.solve silent).result =
        .error { contexts := [.readingOutput], cause := .artifact "out" } := by
  let files : Files := { entries := [⟨"out", .text "UNSAT\n"⟩] }
  have alike : files.AlikeBesides "out" {} := by
    refine ⟨rfl, fun plain elsewhere => ?_⟩
    have different : "out" ≠ plain := fun same => elsewhere (same ▸ rfl)
    simp [files, Files.lookup?, different]
  have usable : files.Usable "in" "out" :=
    ⟨"in", "out", rfl, rfl, by decide, by decide, by decide⟩
  let session : Session Unit :=
    .fresh Problem.twoVariables
      { program := "search", input := "in", output := "out" } () files
  have resembling : session.files.AlikeBesides session.settings.output {} := alike
  have ready : session.Ready := usable
  obtain ⟨handed, hands, _⟩ :=
    Session.exists_handover ready Problem.twoVariables.wellFormed_formula
  obtain ⟨solves, enumerates, _⟩ := old_answers_unread
    (Search.dependsOnInput_backend false).extensional resembling
  obtain ⟨_, _, unread⟩ := old_answers_unread extensional_silent resembling
  exact ⟨session, Session.start_eq_ok _ _ _ _, alike, solves, enumerates,
    unread handed _ hands rfl rfl rfl⟩

end OrderEncoding
