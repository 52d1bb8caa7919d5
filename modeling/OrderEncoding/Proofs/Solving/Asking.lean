import OrderEncoding.Proofs.Dimacs.Models
import OrderEncoding.Proofs.Files
import OrderEncoding.Solving.Session

/-!
# Asking a backend

A backend answers numbered clauses when it leaves a right verdict about them at
the output: that they have no model, or one of their full models.  A session
whose files are usable writes its formula, asks the backend, and takes up the
verdict that it left.
-/

namespace OrderEncoding

/-- A verdict is right about numbered clauses. -/
def Verdict.Answers (numbered : NumberedClauses) : Verdict → Prop
  | .unsatisfiable => ∀ numbers, ¬numbered.Model numbers
  | .model numbers => numbered.Model numbers

/-- A call of a backend left a right verdict about numbered clauses. -/
structure BackendCall.Answers
    {σ : Type}
    (call : BackendCall σ)
    (input output : String)
    (numbered : NumberedClauses) : Prop where
  succeeds : call.result = .ok ()
  usable : call.files.Usable input output
  verdict : ∃ text verdict, call.files.readText? output = some text ∧
    Verdict.read text = .ok verdict ∧ verdict.Answers numbered

/-- A backend answers all clauses over so many atoms, as long as they are not too
many, that it finds at the input while nothing is at the output. -/
def Backend.Honest
    {σ : Type}
    (backend : Backend σ)
    (input output : String)
    (atomCount clauseCount : Nat) : Prop :=
  ∀ memory files numbered comment,
    numbered.InRange → numbered.atomCount = atomCount →
    numbered.clauses.length ≤ clauseCount →
    files.Usable input output →
    files.readText? input = some (numbered.text comment) →
    files.readText? output = none →
    (backend memory input output files).Answers input output numbered

namespace Session

variable {σ : Type}

/-- Two sessions are about the same problem and formula. -/
structure Alike (first second : Session σ) : Prop where
  problem : first.problem = second.problem
  settings : first.settings = second.settings
  formula : first.formula = second.formula

/-- The files of a session can be exchanged with a backend. -/
def Ready (session : Session σ) : Prop :=
  session.files.Usable session.settings.input session.settings.output

theorem Alike.trans
    {first second third : Session σ}
    (firstAlike : first.Alike second)
    (secondAlike : second.Alike third) :
    first.Alike third :=
  ⟨firstAlike.problem.trans secondAlike.problem,
    firstAlike.settings.trans secondAlike.settings,
    firstAlike.formula.trans secondAlike.formula⟩

/-- A session after its formula was written. -/
def exported (session : Session σ) (files : Files) : Session σ :=
  { session with files }.tell
    (.debug ("DIMACS instance written to " ++ session.settings.input))

/-- A session after a call of its backend. -/
def called (session : Session σ) (call : BackendCall σ) : Session σ :=
  { session with
    memory := call.memory
    files := call.files
    events := session.events ++ call.events }

/-- The files that a backend is called with, unless a file is refused before. -/
def handover (session : Session σ) : Option Files :=
  session.prepare.result.toOption.map fun _ => session.prepare.session.files

/-- A backend is called with the text of the formula at the input, and with
nothing at the output. -/
theorem handover_eq_some_iff
    {session : Session σ}
    {files : Files} :
    session.handover = some files ↔
      ∃ text written,
        session.formula.toDimacs session.settings.comment = .ok text ∧
        session.files.write session.settings.input (.text text) = .ok written ∧
        written.clear session.settings.output = .ok files := by
  cases made : session.formula.toDimacs session.settings.comment with
  | error failure =>
      simp [handover, prepare, exportFormula, made, fail, Except.toOption]
  | ok text =>
      cases writes : session.files.write session.settings.input (.text text) with
      | error fault =>
          simp [handover, prepare, exportFormula, made, writes, fail,
            Except.toOption]
      | ok written =>
          cases clears : written.clear session.settings.output with
          | error fault =>
              simp [handover, prepare, exportFormula, made, writes, clears, fail,
                done, tell, Except.toOption]
          | ok cleared =>
              simp [handover, prepare, exportFormula, made, writes, clears, done,
                tell, Except.toOption]

/-- A question whose call is prepared is the call with the files that are handed
over. -/
theorem solve_of_handover
    {session : Session σ}
    {files : Files}
    (hands : session.handover = some files)
    (backend : Backend σ) :
    session.solve backend = (session.exported files).callBackend backend := by
  obtain ⟨text, written, made, writes, clears⟩ := handover_eq_some_iff.mp hands
  have prepares : session.prepare = (session.exported files).done () := by
    simp only [prepare, exportFormula, made, writes, done, tell, clears]
    rfl
  rw [solve, prepares]
  rfl

/-- A session whose files are usable calls its backend, with the text of its
formula at the input and nothing at the output. -/
theorem exists_handover
    {session : Session σ}
    (ready : session.Ready)
    (wellFormed : session.formula.WellFormed) :
    ∃ handed, session.handover = some handed ∧
      handed.Usable session.settings.input session.settings.output ∧
      handed.readText? session.settings.input =
        some (session.formula.numbered.text session.settings.comment) ∧
      handed.readText? session.settings.output = none := by
  obtain ⟨written, writes, usable, textAt⟩ := Files.Usable.exists_write ready
    (session.formula.numbered.text session.settings.comment)
  obtain ⟨cleared, clears, stillUsable, nothingLeft, kept⟩ :=
    Files.Usable.exists_clear usable.symm
  exact ⟨cleared, handover_eq_some_iff.mpr
    ⟨_, written, wellFormed.toDimacs_eq_ok _, writes, clears⟩,
    stillUsable.symm, kept.trans textAt, nothingLeft⟩

/-- A verdict that was left at the output is taken up. -/
theorem readOutput_eq_accept
    {session : Session σ}
    {text : String}
    {verdict : Verdict}
    (textAt : session.files.readText? session.settings.output = some text)
    (reads : Verdict.read text = .ok verdict) :
    session.readOutput = session.accept verdict := by
  have inContextOk : inContext .readingVerdict (Verdict.read text) =
      .ok verdict := Results.inContext_eq_ok_iff.mpr reads
  simp only [readOutput, textAt, inContextOk]

/-- The output of a call that succeeds is read. -/
theorem callBackend_of_succeeds
    {session : Session σ}
    {backend : Backend σ}
    {call : BackendCall σ}
    (called : call = backend session.memory session.settings.input
      session.settings.output session.files)
    (succeeds : call.result = .ok ()) :
    session.callBackend backend = (session.called call).readOutput := by
  simp only [callBackend, ← called, succeeds]
  rfl

/-- An answer of an honest backend is taken up. -/
theorem exists_solve_eq_accept
    {session : Session σ}
    (ready : session.Ready)
    (wellFormed : session.formula.WellFormed)
    {backend : Backend σ}
    {clauseCount : Nat}
    (honest : backend.Honest session.settings.input session.settings.output
      session.formula.atoms.length clauseCount)
    (bounded : session.formula.clauses.length ≤ clauseCount) :
    ∃ (asked : Session σ) (verdict : Verdict),
      session.solve backend = asked.accept verdict ∧
        asked.Alike session ∧ asked.Ready ∧
        verdict.Answers session.formula.numbered := by
  obtain ⟨handed, hands, usable, textAt, nothingLeft⟩ :=
    exists_handover ready wellFormed
  obtain ⟨succeeds, stillUsable, text, verdict, verdictAt, reads, right⟩ := honest
    session.memory handed session.formula.numbered session.settings.comment
    wellFormed.inRange_numbered rfl (by simpa [Formula.numbered] using bounded)
    usable textAt nothingLeft
  refine ⟨(session.exported handed).called _, verdict, ?_, ⟨rfl, rfl, rfl⟩,
    stillUsable, right⟩
  rw [solve_of_handover hands, callBackend_of_succeeds rfl succeeds]
  exact readOutput_eq_accept verdictAt reads

end Session
end OrderEncoding
