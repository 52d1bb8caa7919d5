import OrderEncoding.Proofs.Solving.AnswerFormat
import OrderEncoding.Proofs.Solving.Enumeration

/-!
# Models that are cut off

A backend that is interrupted leaves a part of its answer.  The end of an answer
ends its model too, so a part that announces the model or holds some of its
numbers is read as a model, and decoded like any other.  Fewer order atoms may be
true in it, and the value of a variable is then too great.
-/

namespace OrderEncoding
namespace Session

variable {σ : Type}

/-- A call of a backend by a session succeeded, and left a text at the output. -/
structure Leaves
    (backend : Backend σ)
    (session : Session σ)
    (call : BackendCall σ)
    (text : String) : Prop where
  called : ∃ files, session.handover = some files ∧
    call = backend session.memory session.settings.input session.settings.output
      files
  succeeds : call.result = .ok ()
  written : call.files.readText? session.settings.output = some text

theorem replies_iff_leaves
    {backend : Backend σ}
    {session : Session σ}
    {call : BackendCall σ}
    {verdict : Verdict} :
    Replies backend session call verdict ↔
      ∃ text, Leaves backend session call text ∧
        Verdict.read text = .ok verdict := by
  constructor
  · rintro ⟨called, succeeds, text, written, reads⟩
    exact ⟨text, ⟨called, succeeds, written⟩, reads⟩
  · rintro ⟨text, ⟨called, succeeds, written⟩, reads⟩
    exact ⟨called, succeeds, text, written, reads⟩

open Verdict (Terminated CutOff)

/-- A text is read as a model when a zero ends the model, or when the text is cut
off, which exclude each other.  A session makes no difference: it gives a solution
exactly when the backend leaves a text of one kind or the other whose numbers are
decoded to the solution. -/
theorem solution_of_terminated_or_cutOff
    (backend : Backend σ)
    (session : Session σ)
    (solution : Solution) :
    (∀ text numbers, Verdict.read text = .ok (.model numbers) ↔
      Terminated (Text.lines text.toList) numbers ∨
        CutOff (Text.lines text.toList) numbers) ∧
    (∀ lines numbers others,
      ¬(Terminated lines numbers ∧ CutOff lines others)) ∧
    ((session.solve backend).result = .ok (.satisfiable solution) ↔
      ∃ call text numbers, Leaves backend session call text ∧
        (Terminated (Text.lines text.toList) numbers ∨
          CutOff (Text.lines text.toList) numbers) ∧
        session.problem.decode session.formula numbers = .ok solution) := by
  refine ⟨fun text numbers => Verdict.read_eq_model_iff,
    fun lines numbers others both => both.1.not_cutOff both.2, ?_⟩
  rw [solve_eq_satisfiable_iff]
  constructor
  · rintro ⟨call, numbers, replies, decodes⟩
    obtain ⟨text, leaves, reads⟩ := replies_iff_leaves.mp replies
    exact ⟨call, text, numbers, leaves, Verdict.read_eq_model_iff.mp reads, decodes⟩
  · rintro ⟨call, text, numbers, leaves, shown, decodes⟩
    exact ⟨call, numbers, replies_iff_leaves.mpr
      ⟨text, leaves, Verdict.read_eq_model_iff.mpr shown⟩, decodes⟩

end Session

namespace Problem

open Verdict (Terminated CutOff)

/-- An answer that is cut off after two of its five numbers is read as a model,
although no zero ends it, and a session decodes it.  It gives the variable the
greatest value, and the whole answer gives it the least. -/
theorem not_terminated_cut_off_answer :
    let part := "SAT\n-1 2"
    let whole := part ++ " 3 4 5 0\n"
    let problem : Problem := { vars := [{ name := "x", lower := 0, upper := 3 }] }
    let settings : Settings := { program := "search", input := "in", output := "out" }
    Verdict.read part = .ok (.model [-1, 2]) ∧
      (∀ numbers, ¬Terminated (Text.lines part.toList) numbers) ∧
      (Session.start problem settings [part] {}).map (fun session =>
        (session.solve answersInTurn).result) =
          .ok (.ok (.satisfiable { bindings := [⟨"x", 3⟩] })) ∧
      (Session.start problem settings [whole] {}).map (fun session =>
        (session.solve answersInTurn).result) =
          .ok (.ok (.satisfiable { bindings := [⟨"x", 0⟩] })) := by
  intro part whole problem settings
  have numeral {word : List Char} {value : Int}
      (reads : Numeral.readWord? word = some value) : Written.IsNumeral word value :=
    Numeral.readWord?_eq_some_iff_isNumeral.mp reads
  have gives : Verdict.Continues "-1 2".toList [-1, 2] false :=
    .gives (by decide : Verdict.Gives _ ["-1".toList, "2".toList])
      ⟨.cons (numeral rfl) (.cons (numeral rfl) .nil), by decide⟩
  have announces : Verdict.Announces "SAT".toList := by decide
  have passes := Verdict.Passes.line (.announces announces) <|
    .line gives <| .done []
  have split : Text.lines part.toList = ["SAT".toList, "-1 2".toList] := by decide
  have cutOff : CutOff (Text.lines part.toList) [-1, 2] := by
    rw [split]
    exact ⟨true, passes, .inr rfl⟩
  refine ⟨cutOff.readLines_eq, fun numbers terminated =>
    terminated.not_cutOff cutOff, ?_, ?_⟩
  · decide +kernel
  · decide +kernel

end Problem
end OrderEncoding
