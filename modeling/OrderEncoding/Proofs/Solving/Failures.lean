import OrderEncoding.Proofs.Solving.Histories

/-!
# Where failures come from

Some failures would tell of a defect in the encoding: an atom without a number, a
number without an atom, an inequality without a threshold, a variable without a
value.  Whatever a backend does, no session fails in such a way by itself.  The
backend gave up with such a failure, or it left a model that cannot be decoded;
and then the session has learned nothing.
-/

namespace OrderEncoding

/-- Whether a cause lies within the encoding and the models of its formula. -/
def Cause.isInternal : Cause → Bool
  | .unknownAtom _ => true
  | .literalOutOfRange _ _ => true
  | .severalTerms _ => true
  | .noTrueOrderAtom _ => true
  | .valueOutsideDomain _ _ => true
  | _ => false

namespace Verdict

theorem onlyMalformed_readNumbers
    (numbers : List Int)
    (words : List (List Char)) :
    Results.OnlyMalformed (readNumbers numbers words) := by
  fun_induction readNumbers numbers words with
  | case1 => exact Results.onlyMalformed_ok _
  | case2 => exact Results.onlyMalformed_malformed _
  | case3 => exact Results.onlyMalformed_ok _
  | case4 numbers word rest number reads nonzero inductionHypothesis =>
      exact inductionHypothesis

theorem onlyMalformed_readLines
    (numbers : List Int)
    (satisfiable : Bool)
    (lines : List (List Char)) :
    Results.OnlyMalformed (readLines numbers satisfiable lines) := by
  induction lines generalizing numbers satisfiable with
  | nil => exact Results.onlyMalformed_ok _
  | cons line rest inductionHypothesis =>
      rw [readLines]
      split
      next comment => exact inductionHypothesis _ _
      next unsatisfiable => exact Results.onlyMalformed_ok _
      next satisfiable => exact inductionHypothesis _ _
      next undecided => exact Results.onlyMalformed_malformed _
      next words given =>
        refine (onlyMalformed_readNumbers numbers words).bind fun read => ?_
        split
        next ended => exact Results.onlyMalformed_ok _
        next goesOn => exact inductionHypothesis _ _

/-- What is no verdict is malformed. -/
theorem onlyMalformed_read (text : String) :
    Results.OnlyMalformed (read text) :=
  onlyMalformed_readLines [] false _

end Verdict

namespace Session

variable {σ : Type}

/-! ## Sessions that do not fail by themselves -/

/-- A session whose formula can be written, and whose last model can be
blocked. -/
structure Sound (session : Session σ) : Prop where
  wellFormed : session.formula.WellFormed
  denoted : ∀ numbers, session.lastModel = some numbers →
    ∃ literals, numbers.mapM session.formula.literalOf = .ok literals

theorem sound_fresh
    (problem : Problem)
    (settings : Settings)
    (memory : σ)
    (files : Files) :
    (fresh problem settings memory files).Sound :=
  ⟨problem.wellFormed_formula, nofun⟩

theorem Sound.of_kept
    {session next : Session σ}
    (sound : session.Sound)
    (kept : next.Kept session) :
    next.Sound := by
  obtain ⟨wellFormed, denoted⟩ := sound
  rw [← kept.formula] at wellFormed denoted
  rw [← kept.lastModel] at denoted
  exact ⟨wellFormed, denoted⟩

/-- Only a model that was decoded is held. -/
theorem Sound.solve
    {session : Session σ}
    (sound : session.Sound)
    (backend : Backend σ) :
    (session.solve backend).session.Sound := by
  cases session.solved_solve backend with
  | failed failure result kept => exact sound.of_kept kept
  | exhausted call replies result alike memory status lastModel =>
      refine ⟨alike.formula ▸ sound.wellFormed, fun numbers last => ?_⟩
      rw [lastModel] at last
      contradiction
  | found call numbers solution replies decodes result alike memory status
      lastModel =>
      refine ⟨alike.formula ▸ sound.wellFormed, fun others last => ?_⟩
      obtain rfl := Option.some.inj (lastModel.symm.trans last)
      obtain ⟨literals, denoted, _⟩ := Results.bind_eq_ok_iff.mp decodes
      exact ⟨literals, alike.formula ▸ denoted⟩

/-- The last model can be blocked. -/
theorem Sound.exists_blockLastModel
    {session : Session σ}
    (sound : session.Sound) :
    ∃ blocked : Session σ,
      session.blockLastModel = blocked.done () ∧ blocked.Sound := by
  cases last : session.lastModel with
  | none =>
      refine ⟨session, ?_, sound⟩
      simp only [blockLastModel, last]
  | some numbers =>
      obtain ⟨literals, denoted⟩ := sound.denoted numbers last
      obtain ⟨clause, _, registered, blocksBy⟩ :=
        Session.exists_blockLastModel sound.wellFormed last denoted
      refine ⟨_, blocksBy, sound.wellFormed.withClause registered, ?_⟩
      intro others held
      cases held

/-- Every step in a history keeps a session sound. -/
theorem Sound.follows
    {backend : Backend σ}
    {asks : Session σ → Prop}
    {point next : Point σ}
    (sound : point.session.Sound)
    (follows : Follows backend asks point next) :
    next.session.Sound := by
  cases follows with
  | solve => exact sound.solve backend
  | exportFormula => exact sound.of_kept (exportFormula_kept _)
  | begin => exact sound
  | stop => exact sound.of_kept (finish_kept _ _ _)
  | fail => exact sound.solve backend
  | exhaust => exact (sound.solve backend).of_kept (finish_kept _ _ _)
  | round goesOn asked answered replies blocks =>
      obtain ⟨blocked, blocksTo, soundAfter⟩ :=
        (sound.solve backend).exists_blockLastModel
      obtain rfl := congrArg Step.session (blocks.symm.trans blocksTo)
      exact soundAfter
  | unblocked goesOn asked answered replies fails =>
      obtain ⟨blocked, blocksTo, _⟩ := (sound.solve backend).exists_blockLastModel
      cases fails.symm.trans blocksTo

theorem Sound.leads
    {backend : Backend σ}
    {asks : Session σ → Prop}
    {point next : Point σ}
    (sound : point.session.Sound)
    (leads : Leads backend asks point next) :
    next.session.Sound := by
  induction leads with
  | refl => exact sound
  | tail _ follows inductionHypothesis => exact inductionHypothesis.follows follows

/-! ## Failures that come from the backend -/

/-- A failure of a question comes from the backend: it gave up with a failure of
its own, or it left a model that cannot be decoded. -/
def FromBackend
    (backend : Backend σ)
    (session : Session σ)
    (failure : Failure) : Prop :=
  (∃ files, session.handover = some files ∧
    GivesUp backend session files failure) ∨
  ∃ call numbers, Replies backend session call (.model numbers) ∧
    session.problem.decode session.formula numbers = .error failure

/-- The formula of a sound session is not written only if its input is refused. -/
theorem Sound.cause_of_unwritten
    {session : Session σ}
    (sound : session.Sound)
    {failure : Failure}
    (unwritten : session.Unwritten failure) :
    failure.cause = .artifact session.settings.input := by
  rcases unwritten with unwritable | refused
  · rw [sound.wellFormed.toDimacs_eq_ok] at unwritable
    contradiction
  · exact refused

theorem Sound.cause_of_exportFormula
    {session : Session σ}
    (sound : session.Sound)
    {failure : Failure}
    (fails : session.exportFormula.result = .error failure) :
    failure.cause = .artifact session.settings.input := by
  rcases session.exportFormula_cases with
    ⟨other, refuses, unwritten⟩ | ⟨text, files, made, writes, exports⟩
  · rw [refuses] at fails
    obtain rfl := Except.error.inj fails
    exact sound.cause_of_unwritten unwritten
  · rw [exports] at fails
    contradiction

/-- Whatever else makes a question fail, it is nothing internal. -/
theorem Sound.fromBackend
    {session : Session σ}
    (sound : session.Sound)
    {backend : Backend σ}
    {failure : Failure}
    (refusal : Refusal backend session failure)
    (internal : failure.cause.isInternal = true) :
    FromBackend backend session failure := by
  cases refusal with
  | unwritten unwritten =>
      rw [sound.cause_of_unwritten unwritten] at internal
      contradiction
  | unread unread =>
      rcases unread with refused | ⟨text, unclear, fails, same⟩
      · rw [refused] at internal
        contradiction
      · obtain ⟨malformation, malformed⟩ :=
          Verdict.onlyMalformed_read text unclear fails
        rw [same, malformed] at internal
        contradiction
  | givesUp files handed givesUp => exact .inl ⟨files, handed, givesUp⟩
  | rejects call numbers replies rejects =>
      exact .inr ⟨call, numbers, replies, rejects⟩

/-- A failed question has taught a sound session nothing, and what is internal
about the failure comes from the backend. -/
theorem Sound.kept_and_fromBackend
    {session : Session σ}
    (sound : session.Sound)
    {backend : Backend σ}
    {failure : Failure}
    (fails : (session.solve backend).result = .error failure) :
    (session.solve backend).session.Kept session ∧
      (failure.cause.isInternal = true → FromBackend backend session failure) := by
  cases session.solved_solve backend with
  | failed other result kept refusal =>
      obtain rfl := Except.error.inj (fails.symm.trans result)
      exact ⟨kept, sound.fromBackend refusal⟩
  | exhausted call replies result => cases fails.symm.trans result
  | found call numbers solution replies decodes result =>
      cases fails.symm.trans result

/-- Rounds lead from a session to sound ones only, if it is sound itself. -/
theorem Sound.rounds
    {backend : Backend σ}
    {session last : Session σ}
    (sound : session.Sound)
    {found : List Solution}
    {taken : List Round}
    (gone : Rounds backend session found taken last) :
    last.Sound := by
  obtain ⟨_, _, leads⟩ := gone.leads (fun _ _ _ => trivial) 0 [] []
  exact Sound.leads sound leads

/-- An enumeration of a sound session fails only with a question, after some
rounds. -/
theorem Sound.exists_rounds_of_error
    {backend : Backend σ}
    {rounds : Nat}
    {session : Session σ}
    (sound : session.Sound)
    {found : List Solution}
    {calls : Nat}
    {enumeration : Enumeration σ}
    (enumerates : enumerateFrom backend rounds session found calls =
      some enumeration)
    {failure : Failure}
    (fails : enumeration.result = .error failure) :
    ∃ taken last inner, Rounds backend session found taken last ∧
      (last.solve backend).result = .error inner ∧
      enumeration =
        { session := (last.solve backend).session
          reported := foundAfter found taken
          calls := calls + taken.length
          result := .error
            (inner.within (.seekingSolution (calls + taken.length + 1))) } := by
  obtain ⟨taken, last, gone, _, ends⟩ := exists_rounds enumerates
  cases ends with
  | stopped stops => cases fails
  | failed goesOn lastFails => exact ⟨taken, last, _, gone, lastFails, rfl⟩
  | exhausted goesOn answered => cases fails
  | unblocked round goesOn replies answered unblocked =>
      obtain ⟨blocked, blocks, _⟩ :=
        ((sound.rounds gone).solve backend).exists_blockLastModel
      cases unblocked.symm.trans blocks

/-- An enumeration of a sound session fails only with a question, which the
history of the session leads to. -/
theorem Sound.exists_failed_question
    {backend : Backend σ}
    {rounds : Nat}
    {session : Session σ}
    (sound : session.Sound)
    {found : List Solution}
    {calls : Nat}
    {enumeration : Enumeration σ}
    (ends : enumerateFrom backend rounds session found calls =
      some enumeration)
    {failure : Failure}
    (fails : enumeration.result = .error failure)
    (reported : List Solution)
    (taken : List (List Int)) :
    ∃ last inner,
      Leads backend (fun _ => True)
        ⟨session, .seeking found calls, reported, taken⟩ last ∧
      (last.session.solve backend).result = .error inner ∧
      failure = inner.within (.seekingSolution (enumeration.calls + 1)) ∧
      enumeration.session = (last.session.solve backend).session := by
  obtain ⟨rounds, last, inner, gone, lastFails, rfl⟩ :=
    sound.exists_rounds_of_error ends fails
  obtain ⟨more, _, leads⟩ := gone.leads (fun _ _ _ => trivial) calls reported taken
  exact ⟨_, inner, leads, lastFails, (Except.error.inj fails).symm, rfl⟩

end Session

namespace Problem

/-- Every problem is encoded.  At every point in the history of its session, with
whatever backend, the formula can be written and the last model can be blocked,
also right after one more question.  What fails is the input file or a question,
in an enumeration too; the session has learned nothing from it, and if the cause
is internal, the failure comes from the backend. -/
theorem internal_failures_over_history
    (problem : Problem)
    (settings : Settings)
    {σ : Type}
    (memory : σ)
    (files : Files)
    (backend : Backend σ) :
    ∃ formula session, problem.encode = .ok formula ∧
      Session.start problem settings memory files = .ok session ∧
      ∀ point, Session.Leads backend (fun _ => True) { session } point →
        (∀ comment, ∃ text, point.session.formula.toDimacs comment = .ok text) ∧
        point.session.blockLastModel.result = .ok () ∧
        (point.session.solve backend).session.blockLastModel.result = .ok () ∧
        (∀ failure, point.session.exportFormula.result = .error failure →
          point.session.exportFormula.session.Kept point.session ∧
          failure.cause = .artifact point.session.settings.input) ∧
        (∀ failure, (point.session.solve backend).result = .error failure →
          (point.session.solve backend).session.Kept point.session ∧
          (failure.cause.isInternal = true →
            Session.FromBackend backend point.session failure)) ∧
        (point.activity = .idle → ∀ rounds enumeration failure,
          point.session.enumerate backend rounds = some enumeration →
          enumeration.result = .error failure →
          ∃ last inner, Session.Leads backend (fun _ => True) point last ∧
            failure = inner.within (.seekingSolution (enumeration.calls + 1)) ∧
            enumeration.session.Kept last.session ∧
            (failure.cause.isInternal = true →
              Session.FromBackend backend last.session inner)) := by
  refine ⟨problem.formula, _, problem.encode_eq_ok,
    Session.start_eq_ok problem settings memory files, ?_⟩
  intro point leads
  have sound : point.session.Sound :=
    Session.Sound.leads (Session.sound_fresh problem settings memory files) leads
  obtain ⟨blocked, blocks, _⟩ := sound.exists_blockLastModel
  obtain ⟨next, blocksNext, _⟩ := (sound.solve backend).exists_blockLastModel
  refine ⟨fun comment => ⟨_, sound.wellFormed.toDimacs_eq_ok comment⟩,
    by rw [blocks]; rfl, by rw [blocksNext]; rfl,
    fun failure fails =>
      ⟨point.session.exportFormula_kept, sound.cause_of_exportFormula fails⟩,
    fun failure => sound.kept_and_fromBackend, ?_⟩
  obtain ⟨session, activity, reported, taken⟩ := point
  rintro ⟨⟩ rounds enumeration failure ends fails
  obtain ⟨last, inner, onward, innerFails, rfl, same⟩ :=
    sound.exists_failed_question ends fails reported taken
  have leadsOn := Relation.ReflTransGen.head .begin onward
  obtain ⟨kept, fromBackend⟩ :=
    (sound.leads leadsOn).kept_and_fromBackend innerFails
  exact ⟨last, inner, leadsOn, rfl, same ▸ kept, fromBackend⟩

/-- A backend that always gives a model with a stray number. -/
def strayAnswer : Backend Unit :=
  fun _ _ output files =>
    { result := .ok ()
      memory := ()
      files := (files.write output (.text "SAT\n99 0\n")).toOption.getD files }

/-- A number that no atom has is an internal failure, which comes from the
backend. -/
theorem internal_failures_over_history_stray_number :
    ∃ session failure,
      Session.start twoVariables
        { program := "search", input := "in", output := "out" } () {} =
        .ok session ∧
      (session.solve strayAnswer).result = .error failure ∧
      failure.cause.isInternal = true ∧
      (session.solve strayAnswer).session.Kept session ∧
      Session.FromBackend strayAnswer session failure := by
  obtain ⟨formula, session, encodes, started, history⟩ :=
    internal_failures_over_history twoVariables
      { program := "search", input := "in", output := "out" } () {} strayAnswer
  obtain ⟨_, _, _, _, questions, _⟩ := history _ .refl
  have fails : (session.solve strayAnswer).result =
      .error (.of (.literalOutOfRange 99 10)) := by
    rw [Session.eq_fresh_of_start started]
    decide +kernel
  obtain ⟨kept, fromBackend⟩ := questions _ fails
  exact ⟨session, _, started, fails, rfl, kept, fromBackend rfl⟩

end Problem
end OrderEncoding
