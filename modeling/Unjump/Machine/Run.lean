import Unjump.Execution
import Unjump.Machine.Program

/-!
# Running a program

The machine runs the instruction that the pointer register numbers, then adds one to that
register, and halts as soon as the register numbers no instruction. The pointer is an ordinary
register in between: an instruction may read it, and a write to it is a jump.

`Program.step?` is one such step and has no outcome on a halted state. `Program.runWithin`
iterates it, spending one unit of a budget each time.
-/

namespace Unjump

namespace Program

/-- The number of the instruction that runs next, when the pointer is inside the program. -/
def pc? (p : Program) (r : Registers) : Option (Fin p.instructions.size) :=
  match (r.get p.ip).line? with
  | some n => if h : n < p.instructions.size then some ⟨n, h⟩ else none
  | none => none

/-- The register file after instruction `n`, with the pointer advanced past its value. -/
def execAt (p : Program) (n : Fin p.instructions.size) (r : Registers) : Registers :=
  let r' := (p.instructions[n]).exec (p.wellFormed _ (Array.getElem_mem n.isLt)) r
  r'.set p.ip (r'.get p.ip + 1)

/-- One step of the machine; none when it has halted. -/
def step? (p : Program) (r : Registers) : Option Registers :=
  (p.pc? r).map fun n ↦ p.execAt n r

/-- Runs until the machine halts, or until the budget is spent with an instruction still to run.
The final register file comes with what is left of the budget. -/
def runWithin (p : Program) (budget : Nat) (r : Registers) : Option (Registers × Nat) :=
  match p.step? r with
  | none => some (r, budget)
  | some r' =>
    match budget with
    | 0 => none
    | budget + 1 => p.runWithin budget r'

theorem runWithin_of_none {p : Program} {r : Registers} (h : p.step? r = none) (budget : Nat) :
    p.runWithin budget r = some (r, budget) := by
  rw [runWithin, h]

theorem runWithin_of_some {p : Program} {r r' : Registers} (h : p.step? r = some r')
    (budget : Nat) : p.runWithin (budget + 1) r = p.runWithin budget r' := by
  rw [runWithin, h]

theorem runWithin_zero_of_some {p : Program} {r r' : Registers} (h : p.step? r = some r') :
    p.runWithin 0 r = none := by
  rw [runWithin, h]

def run (p : Program) (limit : StepLimit) (r : Registers) : Except Error Execution :=
  Execution.ofRun limit (p.runWithin limit.budget r)

end Program

end Unjump
