import Unjump.Machine.Program
import Unjump.Text.Blank
import Unjump.Text.Digit

/-!
# Reading a listing

A listing is the text of a program. Its first line that is not blank binds the pointer,
`#ip <N>`; every other line that is not blank is an instruction, `<mnemonic> <a> <b> <c>`.

## Blame

The first faulty line is blamed, by its number in the text counted from 1, blank lines included.
Within a line the faults are looked for in a fixed order: the shape of the line, the mnemonic, the
three numbers, and last whether the register operands name registers. A text without any line is
blamed on line 1.

Instructions are checked as they are read and carry the proof along, so what reaches the end is
a program and no check remains.
-/

namespace Unjump.Listing

/-! ## One line -/

/-- A number of a listing. -/
def readWord (line : Nat) (digits : List Char) : Except Error Word :=
  match Text.word? digits with
  | some w => .ok w
  | none => .error (.parse line ("operand out of range: " ++ String.ofList digits))

/-- A run of decimal digits of any script. -/
def isNumber (w : List Char) : Bool := w.all Text.isDecimalDigit

/-- The number of the pointer register, in a header with the right shape. -/
def headerShape? (text : List Char) : Option (List Char) :=
  match Text.words text with
  | [tag, n] => if tag = ['#', 'i', 'p'] ∧ isNumber n then some n else none
  | _ => none

def readHeader (line : Nat) (text : List Char) : Except Error Reg :=
  match headerShape? text with
  | none =>
    .error (.parse line ("expected `#ip <N>`, got `" ++ String.ofList (Text.trim text) ++ "`"))
  | some n => do
    let w ← readWord line n
    match Reg.ofOperand? w with
    | some ip => return ip
    | none => throw (.invalidRegister line w)

/-- The mnemonic and the three numbers of an instruction with the right shape. -/
def instructionShape? (text : List Char) :
    Option (List Char × List Char × List Char × List Char) :=
  match Text.words text with
  | [m, a, b, c] =>
    if m.all Char.isAlpha ∧ isNumber a ∧ isNumber b ∧ isNumber c then some (m, a, b, c) else none
  | _ => none

/-- What is done with an instruction once its parts are read. -/
def check (line : Nat) (i : Instruction) : Except Error { i : Instruction // i.WellFormed } :=
  match h : i.fault? with
  | none => .ok ⟨i, h⟩
  | some operand => .error (.invalidRegister line operand)

/-- Reads an instruction and checks its registers. -/
def readInstruction (line : Nat) (text : List Char) :
    Except Error { i : Instruction // i.WellFormed } :=
  match instructionShape? text with
  | none =>
    .error (.parse line
      ("expected `<mnemonic> <a> <b> <c>`, got `" ++ String.ofList (Text.trim text) ++ "`"))
  | some (m, a, b, c) => do
    let opcode ←
      match Opcode.ofMnemonic? (String.ofList m) with
      | some opcode => pure opcode
      | none => throw (.unknownOpcode line (String.ofList m))
    check line ⟨opcode, ← readWord line a, ← readWord line b, ← readWord line c⟩

/-! ## The whole text -/

/-- The lines that are not blank, with their numbers counted from 1. -/
def numberedLines (text : List Char) : List (List Char × Nat) :=
  ((Text.lines text).zipIdx 1).filter fun (cs, _) ↦ !(Text.words cs).isEmpty

/-- A program whose instructions have been checked one by one. -/
def ofChecked (ip : Reg) (is : List { i : Instruction // i.WellFormed }) : Program where
  ip := ip
  instructions := (is.map Subtype.val).toArray
  wellFormed i hi := by
    obtain ⟨j, -, rfl⟩ := List.mem_map.mp (List.mem_toArray.mp hi)
    exact j.property

def parse (text : String) : Except Error Program :=
  match numberedLines text.toList with
  | [] => .error (.parse 1 "missing #ip header")
  | (header, line) :: rest => do
    let ip ← readHeader line header
    let is ← rest.mapM fun (cs, line) ↦ readInstruction line cs
    return ofChecked ip is

end Unjump.Listing
