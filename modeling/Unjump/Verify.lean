import Unjump.Code.Exec
import Unjump.Decompile
import Unjump.Machine.Run

/-!
# Verifying a decompilation

A program and decompiled code are compared by running both from the same register file and
looking at register 0 at the end. Both runs start at the first line, so the pointer register is
set to 0 before.

If the pointer is register 0 there is nothing to compare: the machine leaves its exit position
there, which code does not know.
-/

namespace Unjump

/-- The register file from which program and code are run. -/
def Program.startFile (p : Program) (r : Registers) : Registers := r.set p.ip 0

/-- Whether a program and a decompilation end with the same word in register 0. -/
def Program.verify (o : Options) (p : Program) (d : Decompilation) (r : Registers) :
    Except Error Bool :=
  if p.ip = 0 ∨ d.ip = 0 then .error (.unverifiable "register 0 is the instruction pointer")
  else do
    let expected ← p.run o.stepLimit (p.startFile r)
    let actual ← Code.run d.ip d.code o.stepLimit (p.startFile r)
    return expected.registers.get 0 == actual.registers.get 0

end Unjump
