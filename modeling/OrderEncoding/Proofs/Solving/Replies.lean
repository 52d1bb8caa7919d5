import OrderEncoding.Proofs.Solving.Asking

/-!
# What comes of asking a backend

A session asks any backend in one way: with its formula at the input, and with
nothing at the output.  Either the question fails and nothing is learned, or the
verdict that the backend left is taken up: the session knows that no model is
left, or it holds a model that is decoded to a solution.
-/

namespace OrderEncoding
namespace Session

variable {σ : Type}

/-- A session that has learned nothing: other files, another memory of the
backend and more events are all that may be new. -/
structure Kept (after before : Session σ) : Prop extends after.Alike before where
  status : after.status = before.status
  lastModel : after.lastModel = before.lastModel

theorem Kept.refl (session : Session σ) : session.Kept session :=
  ⟨⟨rfl, rfl, rfl⟩, rfl, rfl⟩

theorem Kept.trans
    {first second third : Session σ}
    (firstKept : first.Kept second)
    (secondKept : second.Kept third) :
    first.Kept third :=
  ⟨firstKept.toAlike.trans secondKept.toAlike,
    firstKept.status.trans secondKept.status,
    firstKept.lastModel.trans secondKept.lastModel⟩

theorem exported_kept
    (session : Session σ)
    (files : Files) :
    (session.exported files).Kept session :=
  ⟨⟨rfl, rfl, rfl⟩, rfl, rfl⟩

/-- Why the formula of a session is not written: it has no text, or the input is
refused. -/
def Unwritten (session : Session σ) (failure : Failure) : Prop :=
  session.formula.toDimacs session.settings.comment = .error failure ∨
    failure.cause = .artifact session.settings.input

/-- The formula of a session is not written, or it is, which changes no more
than the files and the events. -/
theorem exportFormula_cases (session : Session σ) :
    (∃ failure, session.exportFormula = session.fail failure ∧
      session.Unwritten failure) ∨
    ∃ text files, session.formula.toDimacs session.settings.comment = .ok text ∧
      session.files.write session.settings.input (.text text) = .ok files ∧
      session.exportFormula = (session.exported files).done () := by
  cases made : session.formula.toDimacs session.settings.comment with
  | error failure =>
      exact .inl ⟨failure, by simp only [exportFormula, made], .inl made⟩
  | ok text =>
      cases writes : session.files.write session.settings.input (.text text) with
      | error fault =>
          refine .inl ⟨⟨[.writingInstance], .artifact session.settings.input⟩, ?_,
            .inr rfl⟩
          simp only [exportFormula, made, writes]
      | ok files =>
          refine .inr ⟨text, files, rfl, writes, ?_⟩
          simp only [exportFormula, made, writes]
          rfl

/-- Writing the formula of a session teaches it nothing. -/
theorem exportFormula_kept (session : Session σ) :
    session.exportFormula.session.Kept session := by
  rcases session.exportFormula_cases with ⟨_, fails, _⟩ | ⟨_, files, _, _, writes⟩
  · rw [fails]
    exact .refl session
  · rw [writes]
    exact session.exported_kept files

/-- A question fails before its call, because the formula is not written or the
output is refused, or it is the call with the files that are handed over. -/
theorem solve_cases (session : Session σ) :
    (∃ (failed : Session σ) (failure : Failure),
      (∀ backend, session.solve backend = failed.fail failure) ∧
        failed.Kept session ∧
        (session.Unwritten failure ∨
          failure.cause = .artifact session.settings.output)) ∨
    ∃ files, session.handover = some files ∧ ∀ backend,
      session.solve backend = (session.exported files).callBackend backend := by
  rcases session.exportFormula_cases with
    ⟨failure, fails, unwritten⟩ | ⟨text, written, made, writes, exports⟩
  · refine .inl ⟨session, failure, fun backend => ?_, .refl session, .inl unwritten⟩
    rw [solve, prepare, fails]
    rfl
  · cases clears : written.clear session.settings.output with
    | error fault =>
        refine .inl ⟨session.exported written,
          .of (.artifact session.settings.output), fun backend => ?_,
          session.exported_kept written, .inr rfl⟩
        simp only [solve, prepare, exports, done, exported, tell, clears]
        rfl
    | ok files =>
        have hands : session.handover = some files :=
          handover_eq_some_iff.mpr ⟨text, written, made, writes, clears⟩
        exact .inr ⟨files, hands, solve_of_handover hands⟩

/-- A call of a backend by a session succeeded, and left a verdict. -/
structure Replies
    (backend : Backend σ)
    (session : Session σ)
    (call : BackendCall σ)
    (verdict : Verdict) : Prop where
  called : ∃ files, session.handover = some files ∧
    call = backend session.memory session.settings.input session.settings.output
      files
  succeeds : call.result = .ok ()
  reads : ∃ text, call.files.readText? session.settings.output = some text ∧
    Verdict.read text = .ok verdict

/-- Why no verdict is read: the output is refused, or what it holds is no
verdict. -/
def Unread (session : Session σ) (failure : Failure) : Prop :=
  failure.cause = .artifact session.settings.output ∨
    ∃ text unclear, Verdict.read text = .error unclear ∧
      failure.cause = unclear.cause

/-- The output is refused, or its verdict is taken up. -/
theorem readOutput_cases (session : Session σ) :
    (∃ failure, session.readOutput = session.fail failure ∧
      session.Unread failure) ∨
    ∃ text verdict,
      session.files.readText? session.settings.output = some text ∧
      Verdict.read text = .ok verdict ∧
      session.readOutput = session.accept verdict := by
  cases textAt : session.files.readText? session.settings.output with
  | none => exact .inl ⟨_, by simp only [readOutput, textAt]; rfl, .inl rfl⟩
  | some text =>
      cases reads : Verdict.read text with
      | error failure =>
          exact .inl ⟨failure.within .readingVerdict,
            by simp only [readOutput, textAt, reads]; rfl,
            .inr ⟨text, failure, reads, rfl⟩⟩
      | ok verdict =>
          exact .inr ⟨text, verdict, rfl, reads, readOutput_eq_accept textAt reads⟩

/-- A backend that is called with some files gives up. -/
def GivesUp
    (backend : Backend σ)
    (session : Session σ)
    (files : Files)
    (failure : Failure) : Prop :=
  ∃ own, (backend session.memory session.settings.input session.settings.output
      files).result = .error own ∧
    failure = own.within .callingSolver

/-- A call of a backend fails, or its verdict is taken up. -/
theorem callBackend_cases
    (backend : Backend σ)
    (session : Session σ) :
    (∃ (failed : Session σ) (failure : Failure),
      session.callBackend backend = failed.fail failure ∧
        failed.Kept session ∧
        (session.Unread failure ∨
          GivesUp backend session session.files failure)) ∨
    ∃ call text verdict,
      call = backend session.memory session.settings.input
          session.settings.output session.files ∧
        call.result = .ok () ∧
        call.files.readText? session.settings.output = some text ∧
        Verdict.read text = .ok verdict ∧
        session.callBackend backend = (session.called call).accept verdict := by
  obtain ⟨call, called⟩ : ∃ call, call = backend session.memory
    session.settings.input session.settings.output session.files := ⟨_, rfl⟩
  cases result : call.result with
  | error failure =>
      refine .inl ⟨session.called call, failure.within .callingSolver, ?_,
        ⟨⟨rfl, rfl, rfl⟩, rfl, rfl⟩, .inr ⟨failure, called ▸ result, rfl⟩⟩
      simp only [callBackend, ← called, result]
      rfl
  | ok =>
      rw [callBackend_of_succeeds called result]
      rcases (session.called call).readOutput_cases with
        ⟨failure, fails, unread⟩ | ⟨text, verdict, textAt, reads, accepts⟩
      · exact .inl ⟨_, failure, fails, ⟨⟨rfl, rfl, rfl⟩, rfl, rfl⟩, .inl unread⟩
      · exact .inr ⟨call, text, verdict, called, result, textAt, reads, accepts⟩

/-- Why a question to a backend fails. -/
inductive Refusal
    (backend : Backend σ)
    (session : Session σ)
    (failure : Failure) : Prop
  | unwritten
      (unwritten : session.Unwritten failure)
  | unread
      (unread : session.Unread failure)
  /-- The backend gives up. -/
  | givesUp
      (files : Files)
      (handed : session.handover = some files)
      (givesUp : GivesUp backend session files failure)
  /-- The model that the backend left cannot be decoded. -/
  | rejects
      (call : BackendCall σ)
      (numbers : List Int)
      (replies : Replies backend session call (.model numbers))
      (rejects : session.problem.decode session.formula numbers = .error failure)

/-- Asking a backend fails, or the verdict that it left is taken up. -/
theorem solve_fails_or_accepts
    (backend : Backend σ)
    (session : Session σ) :
    (∃ (failed : Session σ) (failure : Failure),
      session.solve backend = failed.fail failure ∧ failed.Kept session ∧
        Refusal backend session failure) ∨
    ∃ (asked : Session σ) (call : BackendCall σ) (verdict : Verdict),
      session.solve backend = asked.accept verdict ∧ asked.Kept session ∧
        asked.memory = call.memory ∧ Replies backend session call verdict := by
  rcases session.solve_cases with
    ⟨failed, failure, fails, kept, unwritten | refused⟩ | ⟨files, hands, asks⟩
  · exact .inl ⟨failed, failure, fails backend, kept, .unwritten unwritten⟩
  · exact .inl ⟨failed, failure, fails backend, kept, .unread (.inl refused)⟩
  · rw [asks backend]
    rcases (session.exported files).callBackend_cases backend with
      ⟨failed, failure, fails, kept, unread | givesUp⟩ |
      ⟨call, text, verdict, called, succeeds, textAt, reads, accepts⟩
    · exact .inl ⟨failed, failure, fails,
        kept.trans (session.exported_kept files), .unread unread⟩
    · exact .inl ⟨failed, failure, fails,
        kept.trans (session.exported_kept files), .givesUp files hands givesUp⟩
    · exact .inr ⟨_, call, verdict, accepts, ⟨⟨rfl, rfl, rfl⟩, rfl, rfl⟩, rfl,
        ⟨files, hands, called⟩, succeeds, text, textAt, reads⟩

/-- A session after it took up a model that stands for a solution. -/
def accepted
    (session : Session σ)
    (numbers : List Int)
    (solution : Solution) : Session σ :=
  { session with status := .satisfiable, lastModel := some numbers }.tell
    (.debug ("SAT: " ++ solution.textWith ", "))

theorem accept_model_eq_done
    {session : Session σ}
    {numbers : List Int}
    {solution : Solution}
    (decodes : session.problem.decode session.formula numbers = .ok solution) :
    session.accept (.model numbers) =
      (session.accepted numbers solution).done (.satisfiable solution) := by
  simp only [accept, decodes]
  rfl

/-- What has come of asking a backend: a failure that taught nothing, the
knowledge that no model is left, or a model that is decoded to a solution. -/
inductive Solved
    (backend : Backend σ)
    (session : Session σ)
    (step : Step σ Outcome) : Prop
  | failed
      (failure : Failure)
      (result : step.result = .error failure)
      (kept : step.session.Kept session)
      (refusal : Refusal backend session failure)
  | exhausted
      (call : BackendCall σ)
      (replies : Replies backend session call .unsatisfiable)
      (result : step.result = .ok .unsatisfiable)
      (alike : step.session.Alike session)
      (memory : step.session.memory = call.memory)
      (status : step.session.status = .unsatisfiable)
      (lastModel : step.session.lastModel = none)
  | found
      (call : BackendCall σ)
      (numbers : List Int)
      (solution : Solution)
      (replies : Replies backend session call (.model numbers))
      (decodes : session.problem.decode session.formula numbers = .ok solution)
      (result : step.result = .ok (.satisfiable solution))
      (alike : step.session.Alike session)
      (memory : step.session.memory = call.memory)
      (status : step.session.status = .satisfiable)
      (lastModel : step.session.lastModel = some numbers)

theorem solved_solve
    (backend : Backend σ)
    (session : Session σ) :
    Solved backend session (session.solve backend) := by
  rcases session.solve_fails_or_accepts backend with
    ⟨failed, failure, fails, kept, refusal⟩ |
    ⟨asked, call, verdict, accepts, kept, memory, replies⟩
  · rw [fails]
    exact .failed failure rfl kept refusal
  · rw [accepts]
    cases verdict with
    | unsatisfiable =>
        exact .exhausted call replies rfl
          ⟨kept.problem, kept.settings, kept.formula⟩ memory rfl rfl
    | model numbers =>
        cases decodes : asked.problem.decode asked.formula numbers with
        | error failure =>
            have fails : asked.accept (.model numbers) = asked.fail failure := by
              simp only [accept, decodes]
            rw [fails]
            rw [kept.problem, kept.formula] at decodes
            exact .failed failure rfl kept (.rejects call numbers replies decodes)
        | ok solution =>
            rw [accept_model_eq_done decodes]
            rw [kept.problem, kept.formula] at decodes
            exact .found call numbers solution replies decodes rfl
              ⟨kept.problem, kept.settings, kept.formula⟩ memory rfl rfl

/-- A call leaves no more than one verdict. -/
theorem Replies.unique
    {backend : Backend σ}
    {session : Session σ}
    {call other : BackendCall σ}
    {verdict otherVerdict : Verdict}
    (replies : Replies backend session call verdict)
    (otherReplies : Replies backend session other otherVerdict) :
    verdict = otherVerdict := by
  obtain ⟨⟨files, handed, rfl⟩, _, text, textAt, reads⟩ := replies
  obtain ⟨⟨otherFiles, otherHanded, rfl⟩, _, otherText, otherTextAt, otherReads⟩ :=
    otherReplies
  cases handed.symm.trans otherHanded
  cases textAt.symm.trans otherTextAt
  cases reads.symm.trans otherReads
  rfl

/-- The output of a call that succeeds is read. -/
theorem exists_solve_eq_readOutput
    {backend : Backend σ}
    {session : Session σ}
    {files : Files}
    (handed : session.handover = some files)
    {call : BackendCall σ}
    (called : call = backend session.memory session.settings.input
      session.settings.output files)
    (succeeds : call.result = .ok ()) :
    ∃ asked : Session σ, session.solve backend = asked.readOutput ∧
      asked.Kept session ∧ asked.files = call.files := by
  refine ⟨(session.exported files).called call, ?_, ⟨⟨rfl, rfl, rfl⟩, rfl, rfl⟩,
    rfl⟩
  rw [solve_of_handover handed]
  exact callBackend_of_succeeds called succeeds

/-- A verdict that was left is taken up. -/
theorem Replies.exists_accept
    {backend : Backend σ}
    {session : Session σ}
    {call : BackendCall σ}
    {verdict : Verdict}
    (replies : Replies backend session call verdict) :
    ∃ asked : Session σ, session.solve backend = asked.accept verdict ∧
      asked.Kept session := by
  obtain ⟨⟨files, handed, called⟩, succeeds, text, textAt, reads⟩ := replies
  obtain ⟨asked, solves, kept, same⟩ :=
    exists_solve_eq_readOutput handed called succeeds
  rw [← same, ← kept.settings] at textAt
  exact ⟨asked, solves.trans (readOutput_eq_accept textAt reads), kept⟩

/-- A session gives a solution exactly when a model that is decoded to it was
left. -/
theorem solve_eq_satisfiable_iff
    {backend : Backend σ}
    {session : Session σ}
    {solution : Solution} :
    (session.solve backend).result = .ok (.satisfiable solution) ↔
      ∃ call numbers, Replies backend session call (.model numbers) ∧
        session.problem.decode session.formula numbers = .ok solution := by
  constructor
  · intro answered
    cases session.solved_solve backend with
    | failed failure result => cases answered.symm.trans result
    | exhausted call replies result => cases answered.symm.trans result
    | found call numbers other replies decodes result =>
        cases answered.symm.trans result
        exact ⟨call, numbers, replies, decodes⟩
  · rintro ⟨call, numbers, replies, decodes⟩
    obtain ⟨asked, accepts, kept⟩ := replies.exists_accept
    rw [← kept.problem, ← kept.formula] at decodes
    rw [accepts, accept_model_eq_done decodes]
    rfl

/-- A question changes neither the problem nor its formula. -/
theorem solve_alike
    (backend : Backend σ)
    (session : Session σ) :
    (session.solve backend).session.Alike session := by
  cases session.solved_solve backend with
  | failed failure result kept => exact kept.toAlike
  | exhausted call replies result alike => exact alike
  | found call numbers solution replies decodes result alike => exact alike

/-- A session that gives a solution holds the model that it was decoded from. -/
theorem Replies.decodes
    {backend : Backend σ}
    {session : Session σ}
    {call : BackendCall σ}
    {numbers : List Int}
    (replies : Replies backend session call (.model numbers))
    {solution : Solution}
    (answered : (session.solve backend).result = .ok (.satisfiable solution)) :
    session.problem.decode session.formula numbers = .ok solution ∧
      (session.solve backend).session.status = .satisfiable ∧
      (session.solve backend).session.lastModel = some numbers := by
  cases session.solved_solve backend with
  | failed failure result kept =>
      rw [result] at answered
      contradiction
  | exhausted other otherReplies => cases replies.unique otherReplies
  | found other otherNumbers otherSolution otherReplies decodes result alike
      memory status lastModel =>
      cases replies.unique otherReplies
      cases result.symm.trans answered
      exact ⟨decodes, status, lastModel⟩

/-- A session that learns that no model is left was told so, and remembers it. -/
theorem exists_replies_of_unsatisfiable
    {backend : Backend σ}
    {session : Session σ}
    (answered : (session.solve backend).result = .ok .unsatisfiable) :
    ∃ call, Replies backend session call .unsatisfiable ∧
      (session.solve backend).session.status = .unsatisfiable := by
  cases session.solved_solve backend with
  | failed failure result => cases answered.symm.trans result
  | exhausted call replies result alike memory status =>
      exact ⟨call, replies, status⟩
  | found call numbers solution replies decodes result =>
      cases answered.symm.trans result

/-- A question to a backend fails, or the backend leaves a right verdict about
the formula. -/
def FailsOrAnswers (backend : Backend σ) (session : Session σ) : Prop :=
  (∃ failure, (session.solve backend).result = .error failure) ∨
    ∃ call verdict, Replies backend session call verdict ∧
      verdict.Answers session.formula.numbered

/-- An honest backend answers right. -/
theorem failsOrAnswers_of_honest
    {session : Session σ}
    (ready : session.Ready)
    (wellFormed : session.formula.WellFormed)
    {backend : Backend σ}
    {clauseCount : Nat}
    (honest : backend.Honest session.settings.input session.settings.output
      session.formula.atoms.length clauseCount)
    (bounded : session.formula.clauses.length ≤ clauseCount) :
    FailsOrAnswers backend session := by
  obtain ⟨handed, hands, usable, textAt, nothingLeft⟩ :=
    exists_handover ready wellFormed
  obtain ⟨succeeds, _, text, verdict, verdictAt, reads, right⟩ := honest
    session.memory handed session.formula.numbered session.settings.comment
    wellFormed.inRange_numbered rfl (by simpa [Formula.numbered] using bounded)
    usable textAt nothingLeft
  exact .inr ⟨_, verdict, ⟨⟨handed, hands, rfl⟩, succeeds, text, verdictAt, reads⟩,
    right⟩

/-- A verdict that was taken up is right if the backend answers right. -/
theorem FailsOrAnswers.answers
    {backend : Backend σ}
    {session : Session σ}
    (asked : FailsOrAnswers backend session)
    {outcome : Outcome}
    (answered : (session.solve backend).result = .ok outcome)
    {call : BackendCall σ}
    {verdict : Verdict}
    (replies : Replies backend session call verdict) :
    verdict.Answers session.formula.numbered := by
  rcases asked with ⟨failure, fails⟩ | ⟨_, other, otherReplies, right⟩
  · rw [fails] at answered
    contradiction
  · rwa [replies.unique otherReplies]

/-- A right answer that no model is left is obtained when none is. -/
theorem FailsOrAnswers.noneLeft
    {backend : Backend σ}
    {session : Session σ}
    (asked : FailsOrAnswers backend session)
    (wellFormed : session.formula.WellFormed)
    (answered : (session.solve backend).result = .ok .unsatisfiable)
    (truth : Atom → Bool) :
    session.formula.eval truth = false := by
  obtain ⟨call, replies, _⟩ := exists_replies_of_unsatisfiable answered
  exact wellFormed.eval_eq_false (asked.answers answered replies) truth

end Session
end OrderEncoding
