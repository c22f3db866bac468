import Unjump.Form.Basic
import Unjump.Machine.Program
import Unjump.Execution

/-!
# Data forms of the machine

```text
register      its number
registers     [word, word, word, word, word, word]
instruction   {"opcode": mnemonic, "a": word, "b": word, "c": word}
program       {"ip": register, "instructions": [instruction, ..]}
```

A register is read as a number of eight bits and then looked up, and a program as its parts, which
are checked once all of them are there. So a program that was read can be run.
-/

namespace Unjump

/-! ## Registers -/

def Reg.toJson (r : Reg) : Json := .nat r.val

/-- The register with this number. One past the last register is rejected. -/
def Reg.ofByte (n : Nat) : Form.Read Reg :=
  match Reg.ofNat? n with
  | some r => .ok r
  | none => .error (.rejected (.invalidRegister 0 (Int64.ofNat n)))

def Reg.ofJson (v : Json) : Form.Read Reg := do Reg.ofByte (← Form.byte v)

def Registers.toJson (r : Registers) : Json := .arr (r.toList.map Form.ofWord)

def Registers.ofJson (v : Json) : Form.Read Registers := do
  Form.ofOption (Registers.ofList? (← Form.list Form.word v))

/-! ## Step limits -/

def StepLimit.toJson : StepLimit → Json
  | some limit => .nat limit.toNat
  | none => .null

def StepLimit.ofJson : Json → Form.Read StepLimit
  | .null => .ok none
  | v => return some (UInt64.ofNat (← Form.line v))

/-! ## Instructions and programs -/

def Instruction.toJson (i : Instruction) : Json :=
  .obj [("opcode", .str i.opcode.mnemonic), ("a", Form.ofWord i.a), ("b", Form.ofWord i.b),
    ("c", Form.ofWord i.c)]

def Opcode.ofJson (v : Json) : Form.Read Opcode := Form.named Opcode.ofMnemonic? v

/-- The registers of an instruction are not checked. -/
def Instruction.ofJson (v : Json) : Form.Read Instruction := do
  let opcode ← Form.field "opcode" Opcode.ofJson v
  let a ← Form.field "a" Form.word v
  let b ← Form.field "b" Form.word v
  let c ← Form.field "c" Form.word v
  return ⟨opcode, a, b, c⟩

def Program.toJson (p : Program) : Json :=
  .obj [("ip", p.ip.toJson), ("instructions", .arr (p.instructions.toList.map Instruction.toJson))]

/-- A program before it is checked. -/
structure ProgramData where
  ip : Reg
  instructions : List Instruction

def ProgramData.ofJson (v : Json) : Form.Read ProgramData := do
  let ip ← Form.field "ip" Reg.ofJson v
  let instructions ← Form.field "instructions" (Form.list Instruction.ofJson) v
  return ⟨ip, instructions⟩

def ProgramData.check (data : ProgramData) : Form.Read Program :=
  Form.ofExcept (Program.ofInstructions data.ip data.instructions.toArray)

def Program.ofJson (v : Json) : Form.Read Program := do (← ProgramData.ofJson v).check

end Unjump
