import OrderEncoding.Dimacs.Printer
import OrderEncoding.Encoding.Assembly
import OrderEncoding.Solving.Backend
import OrderEncoding.Solving.Decoding
import OrderEncoding.Solving.Report
import OrderEncoding.Solving.Verdict

/-!
# Sessions

A session holds a problem, the formula that encodes it, and the files through
which a backend is asked about the formula.  Each call writes the formula,
removes the old answer, calls the backend, and reads and decodes the new answer.
An enumeration blocks every model it is given until there is none left.
-/

namespace OrderEncoding

/-- What the last accepted answer said. -/
inductive Status where
  | unsolved
  | satisfiable
  | unsatisfiable
deriving DecidableEq, Repr

/-- A problem that is being solved with a backend of memory `σ`. -/
structure Session (σ : Type) where
  problem : Problem
  settings : Settings
  formula : Formula
  status : Status := .unsolved
  /-- The model of the last answer, until it is blocked. -/
  lastModel : Option (List Int) := none
  memory : σ
  files : Files := {}
  events : List Event := []

/-- A session after an action, and the action's result. -/
structure Step (σ α : Type) where
  session : Session σ
  result : Except Failure α

namespace Problem

/-- The events that tell of reading a problem. -/
def readingEvents (problem : Problem) : List Event :=
  [.debug ("parsed CSP with " ++ Numeral.ofNat problem.vars.length ++
    " variables and " ++ Numeral.ofNat problem.clauses.length ++ " clauses")]

/-- The event that tells of encoding an inequality. -/
def encodedInequality (inequality : Inequality) (form : ThresholdForm) : Event :=
  .trace (inequality.text ++ " : CNF = " ++ form.text)

/-- The events that tell of encoding a problem as a formula. -/
def encodingEvents (problem : Problem) (formula : Formula) : List Event :=
  problem.clauses.flatten.filterMap (fun inequality =>
    inequality.encode.toOption.map (encodedInequality inequality)) ++
  [.debug ("SAT instance: " ++ Numeral.ofNat formula.atoms.length ++
    " booleans, " ++ Numeral.ofNat formula.clauses.length ++ " clauses")]

end Problem

namespace Session

/-- A fresh session for a problem. -/
def start
    (problem : Problem)
    (settings : Settings)
    (memory : σ)
    (files : Files) :
    Except Failure (Session σ) :=
  problem.encode.map fun formula =>
    { problem
      settings
      formula
      memory
      files
      events := problem.encodingEvents formula }

/-- The session with one more event. -/
def tell (session : Session σ) (event : Event) : Session σ :=
  { session with events := session.events ++ [event] }

/-- Stops an action with a failure. -/
def fail (session : Session σ) (failure : Failure) : Step σ α :=
  { session, result := .error failure }

/-- Ends an action with a value. -/
def done (session : Session σ) (value : α) : Step σ α :=
  { session, result := .ok value }

/-- Writes the formula to the input file. -/
def exportFormula (session : Session σ) : Step σ Unit :=
  let input := session.settings.input
  match session.formula.toDimacs session.settings.comment with
  | .error failure => session.fail failure
  | .ok text =>
    match session.files.write input (.text text) with
    | .error _ =>
      session.fail
        { contexts := [.writingInstance], cause := .artifact input }
    | .ok files =>
      ({ session with files }.tell
        (.debug ("DIMACS instance written to " ++ input))).done ()

/-- Takes up a verdict.  A model that cannot be decoded changes nothing. -/
def accept (session : Session σ) : Verdict → Step σ Outcome
  | .unsatisfiable =>
    ({ session with status := .unsatisfiable, lastModel := none }.tell
      (.debug "UNSAT")).done .unsatisfiable
  | .model numbers =>
    match session.problem.decode session.formula numbers with
    | .error failure => session.fail failure
    | .ok solution =>
      ({ session with status := .satisfiable, lastModel := some numbers }.tell
        (.debug ("SAT: " ++ solution.textWith ", "))).done
          (.satisfiable solution)

/-- Reads the output file and takes up its verdict. -/
def readOutput (session : Session σ) : Step σ Outcome :=
  let output := session.settings.output
  match session.files.readText? output with
  | none =>
    session.fail { contexts := [.readingOutput], cause := .artifact output }
  | some text =>
    match inContext .readingVerdict (Verdict.read text) with
    | .error failure => session.fail failure
    | .ok verdict => session.accept verdict

/-- Prepares a call of the backend: writes the formula, and leaves nothing at the
output, since an old answer must not be read again. -/
def prepare (session : Session σ) : Step σ Unit :=
  let output := session.settings.output
  let exported := session.exportFormula
  match exported.result with
  | .error failure => exported.session.fail failure
  | .ok () =>
    match exported.session.files.clear output with
    | .error _ => exported.session.fail (.of (.artifact output))
    | .ok files => { exported.session with files }.done ()

/-- Calls the backend with the files of the session, and takes up the answer that
it leaves. -/
def callBackend
    (backend : Backend σ)
    (session : Session σ) :
    Step σ Outcome :=
  let call := backend session.memory session.settings.input
    session.settings.output session.files
  let called :=
    { session with
      memory := call.memory
      files := call.files
      events := session.events ++ call.events }
  match call.result with
  | .error failure => called.fail (failure.within .callingSolver)
  | .ok () => called.readOutput

/-- Asks the backend once about the current formula. -/
def solve (backend : Backend σ) (session : Session σ) : Step σ Outcome :=
  let prepared := session.prepare
  match prepared.result with
  | .error failure => prepared.session.fail failure
  | .ok () => prepared.session.callBackend backend

/-- Whether the negation of a literal belongs to a blocking clause. -/
def blocks (blocking : Blocking) (literal : Literal) : Bool :=
  blocking = .fullAssignment || !literal.atom.isSelector

/-- The clause that excludes a model. -/
def blockingClause
    (blocking : Blocking)
    (formula : Formula)
    (model : List Int) :
    Except Failure Clause :=
  (model.mapM formula.literalOf).map fun literals =>
    (literals.filter (blocks blocking)).map Literal.negated

/-- Excludes the model of the last answer, if there is one. -/
def blockLastModel (session : Session σ) : Step σ Unit :=
  match session.lastModel with
  | none => session.done ()
  | some model =>
    let released := { session with lastModel := none }
    match blockingClause session.settings.blocking session.formula model with
    | .error failure => released.fail failure
    | .ok clause =>
      let told := released.tell
        (.trace ("blocking clause of " ++ Numeral.ofNat clause.length ++
          " literals"))
      match session.formula.addRegisteredClause clause with
      | .error failure => told.fail failure
      | .ok formula => { told with formula }.done ()

/-- An enumeration: the session after it, the solutions that were reported while
it went on, the number of solver calls that were answered, and its result. -/
structure Enumeration (σ : Type) where
  session : Session σ
  reported : List Solution
  calls : Nat
  result : Except Failure (List Solution)

/-- Ends an enumeration after so many solver calls. -/
def finish
    (session : Session σ)
    (found : List Solution)
    (calls : Nat) :
    Enumeration σ :=
  { session := session.tell
      (.debug (Numeral.ofNat found.length ++ " solutions in " ++
        Numeral.ofNat calls ++ " solver calls"))
    reported := found
    calls
    result := .ok found }

/-- Goes on with an enumeration that has found some solutions in so many calls;
`none` if it does not end within the given number of rounds. -/
def enumerateFrom
    (backend : Backend σ)
    (rounds : Nat)
    (session : Session σ)
    (found : List Solution)
    (calls : Nat) :
    Option (Enumeration σ) :=
  match rounds with
  | 0 => none
  | rounds + 1 =>
    if session.settings.stopsAt found.length then
      some (session.finish found calls)
    else
      let solved := session.solve backend
      match solved.result with
      | .error failure =>
        some
          { session := solved.session
            reported := found
            calls
            result := .error (failure.within (.seekingSolution (calls + 1))) }
      | .ok .unsatisfiable => some (solved.session.finish found (calls + 1))
      | .ok (.satisfiable solution) =>
        let found := if solution ∈ found then found else found ++ [solution]
        let blocked := solved.session.blockLastModel
        match blocked.result with
        | .error failure =>
          some
            { session := blocked.session
              reported := found
              calls := calls + 1
              result := .error failure }
        | .ok () =>
          enumerateFrom backend rounds blocked.session found (calls + 1)

/-- Enumerates the solutions of the current formula, each reported once, until
it is unsatisfiable or the limit is reached. -/
def enumerate
    (backend : Backend σ)
    (rounds : Nat)
    (session : Session σ) :
    Option (Enumeration σ) :=
  enumerateFrom backend rounds session [] 0

/-- More rounds than any enumeration is given time for. -/
def manyRounds : Nat := 2147483648

end Session
end OrderEncoding
