import OrderEncoding.Script.Run
import OrderEncoding.Solving.Search

/-!
# Programs at hand

The programs that can be started without leaving the process: the search for
models, under the names of solvers that are called in the same way, and the
shell and the tools for scripts that stand in for a solver.
-/

namespace OrderEncoding

/-- The programs at hand, by name. -/
def programsAtHand : Programs
  | "glucose" => some Search.program
  | "minisat" => some Search.program
  | name => Script.programs name

end OrderEncoding
