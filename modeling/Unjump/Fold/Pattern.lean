/-!
# Patterns of structure

Four shapes of flat code that can be folded into one statement, in the order in which they are
tried.
-/

namespace Unjump

/-- A shape of code that folds into one statement. -/
inductive Pattern where
  /-- Comparison, skip and jump become a two-way branch. -/
  | ifElse
  /-- A branch around a single statement becomes an `ifThen`. -/
  | singleIf
  /-- A first value and a counting `doUntil` become a `forUntil`. -/
  | forLoop
  /-- A backward branch behind statements without transfers becomes a `doUntil`. -/
  | doWhile
deriving DecidableEq, Repr

namespace Pattern

/-- The patterns, the one tried first in front. -/
def priority : List Pattern := [ifElse, singleIf, forLoop, doWhile]

theorem mem_priority (p : Pattern) : p ∈ priority := by
  cases p <;> decide

def name : Pattern → String
  | ifElse => "if-else fusion"
  | singleIf => "single-if"
  | forLoop => "for-loop"
  | doWhile => "do-while"

end Pattern

end Unjump
