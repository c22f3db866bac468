import Unjump.Error

/-!
# Executions and step limits

Both the machine and the code it is lifted to are run the same way: from a register file, within
a *budget* of steps. A run that halts reports its final register file and the number of steps it
took; one that uses up the budget first reports nothing but that.

A step limit is a 64-bit count or absent. Steps are themselves counted in 64 bits, so running
without a limit is running with the largest budget that the counter can record.
-/

namespace Unjump

/-- The outcome of a run that halted. -/
structure Execution where
  registers : Registers
  steps : Nat
deriving DecidableEq

/-- A bound on the number of steps of a run, if there is one. -/
abbrev StepLimit := Option UInt64

/-- The number of steps a limit allows. -/
def StepLimit.budget : StepLimit → Nat
  | some limit => limit.toNat
  | none => UInt64.size - 1

theorem StepLimit.budget_le (limit : StepLimit) : limit.budget ≤ StepLimit.budget none := by
  cases limit with
  | none => exact Nat.le_refl _
  | some n =>
    have := n.toNat_lt_size
    simp only [StepLimit.budget]
    omega

/-- The report on a run from its final register file and the steps left of its budget, if it
halted. -/
def Execution.ofRun (limit : StepLimit) : Option (Registers × Nat) → Except Error Execution
  | some (r, left) => .ok ⟨r, limit.budget - left⟩
  | none => .error (.limitExceeded limit.budget)

end Unjump
