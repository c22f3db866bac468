import Unjump.Code.Stmt
import Unjump.Machine.Program

/-!
# Lifting instructions to code

Each instruction of a program becomes one statement, so that lines of the program and lines of
the code are the same.

An instruction whose destination is an ordinary register becomes an assignment or a comparison.
If it reads the pointer, what it reads is the line it stands at, which is known, so a literal takes
the place of the register. Of the instructions that write the pointer four forms are understood:

* `addi` of the pointer and a constant, and `seti` of a constant, are jumps to a known line;
* `addr` of the pointer and another register skips as many lines as that register says;
* `mulr` throws the pointer far away, which is how programs end.

Every other write to the pointer is refused.
-/

namespace Unjump

namespace Instruction

/-- The register an operand names, or the blame for naming none. -/
def register (line : Nat) (operand : Word) : Except Error Reg :=
  match Reg.ofOperand? operand with
  | some r => .ok r
  | none => .error (.invalidRegister line operand)

/-- A source operand as an expression. The pointer register reads as the line of the
instruction. -/
def source (ip : Reg) (line : Nat) (kind : Opcode.Source) (operand : Word) : Except Error Expr :=
  match kind with
  | .register => do
    let r ← register line operand
    return if r = ip then .lit (Int64.ofNat line) else .reg r
  | .immediate | .ignored => .ok (.lit operand)

/-- The statement that stores what an opcode computes from two sources. -/
def store (dest : Reg) (a b : Expr) : Opcode → Stmt
  | .addr | .addi => .assign dest (.bin .add a b)
  | .mulr | .muli => .assign dest (.bin .mul a b)
  | .banr | .bani => .assign dest (.bin .bitAnd a b)
  | .borr | .bori => .assign dest (.bin .bitOr a b)
  | .setr | .seti => .assign dest a
  | .gtir | .gtri | .gtrr => .compare ⟨.gt, a, b⟩ dest
  | .eqir | .eqri | .eqrr => .compare ⟨.eq, a, b⟩ dest

/-- The line after a word, moved on by an offset; none when that leaves the range of words or is
negative. -/
def lineAfter? (w offset : Word) : Option Nat := do
  let next ← w.addExact? 1
  (← next.addExact? offset).line?

/-- A jump to a line, or the blame for jumping to none. -/
def jump (line : Nat) (opcode : Opcode) : Option Nat → Except Error Stmt
  | some target => .ok (.goto target)
  | none => .error (.unsupportedJump line opcode)

/-- The statement for an instruction that writes the pointer. -/
def liftPointerWrite (ip : Reg) (line : Nat) (i : Instruction) : Except Error Stmt :=
  let isPointer (operand : Word) : Bool := Reg.ofOperand? operand == some ip
  match i.opcode with
  | .addi =>
    jump line .addi (if isPointer i.a then lineAfter? (Int64.ofNat line) i.b else none)
  | .seti => jump line .seti (lineAfter? i.a 0)
  | .addr =>
    if isPointer i.a != isPointer i.b then do
      let a ← register line i.a
      let b ← register line i.b
      return .assign ip (.bin .add (.reg a) (.reg b))
    else .error (.unsupportedJump line .addr)
  | .mulr => .ok .halt
  | opcode => .error (.unsupportedJump line opcode)

/-- The statement for the instruction at a line, in a program whose pointer is `ip`. -/
def lift (ip : Reg) (line : Nat) (i : Instruction) : Except Error Stmt := do
  let dest ← register line i.c
  if dest = ip then i.liftPointerWrite ip line
  else
    let a ← source ip line i.opcode.kinds.1 i.a
    let b ← source ip line i.opcode.kinds.2 i.b
    return store dest a b i.opcode

end Instruction

/-- The code of a program, line by line; the first instruction that cannot be lifted is blamed. -/
def Program.lift (p : Program) : Except Error Code :=
  p.instructions.toList.zipIdx.mapM fun (i, line) ↦ i.lift p.ip line

end Unjump
