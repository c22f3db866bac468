import Unjump.Machine.Register

/-!
# Opcodes

Sixteen opcodes in four families: sums and products, bitwise and/or, copies, and the two
comparisons "greater than" and "equal". Every opcode takes two source operands and writes one
destination register; the letters after the family name say how the sources are read, `r` for
the content of a register and `i` for the operand itself.

The table `Opcode.kinds` says how each source is read, for whoever checks or lifts an
instruction. The meaning, `Opcode.result?`, does not consult the table: it reads the registers
it needs and gives no result when an operand names none.
-/

namespace Unjump

/-! ## Names -/

/-- The operations of the machine. -/
inductive Opcode where
  | addr | addi
  | mulr | muli
  | banr | bani
  | borr | bori
  | setr | seti
  | gtir | gtri | gtrr
  | eqir | eqri | eqrr
deriving DecidableEq, Repr

namespace Opcode

/-- All opcodes in their customary order. -/
def all : List Opcode :=
  [addr, addi, mulr, muli, banr, bani, borr, bori, setr, seti, gtir, gtri, gtrr, eqir, eqri, eqrr]

theorem mem_all (op : Opcode) : op ∈ all := by
  cases op <;> decide

/-- The four letters that name an opcode in a listing. -/
def mnemonic : Opcode → String
  | addr => "addr"
  | addi => "addi"
  | mulr => "mulr"
  | muli => "muli"
  | banr => "banr"
  | bani => "bani"
  | borr => "borr"
  | bori => "bori"
  | setr => "setr"
  | seti => "seti"
  | gtir => "gtir"
  | gtri => "gtri"
  | gtrr => "gtrr"
  | eqir => "eqir"
  | eqri => "eqri"
  | eqrr => "eqrr"

/-- The opcode with this mnemonic; letter case counts. -/
def ofMnemonic? (name : String) : Option Opcode :=
  all.find? fun op ↦ op.mnemonic == name

theorem ofMnemonic?_mnemonic (op : Opcode) : ofMnemonic? op.mnemonic = some op := by
  cases op <;> decide

theorem mnemonic_of_ofMnemonic? {name : String} {op : Opcode} (h : ofMnemonic? name = some op) :
    op.mnemonic = name := by
  simpa using List.find?_some h

/-! ## How the sources are read -/

/-- How an instruction reads a source operand. -/
inductive Source where
  /-- The operand names a register, whose content is read. -/
  | register
  /-- The operand is the value. -/
  | immediate
  /-- The operand is not looked at. -/
  | ignored
deriving DecidableEq, Repr

/-- How the two source operands of an opcode are read. -/
def kinds : Opcode → Source × Source
  | addr | mulr | banr | borr | gtrr | eqrr => (.register, .register)
  | addi | muli | bani | bori | gtri | eqri => (.register, .immediate)
  | gtir | eqir => (.immediate, .register)
  | setr => (.register, .ignored)
  | seti => (.immediate, .ignored)

/-! ## Meaning -/

/-- Comparisons store their outcome as 1 or 0. -/
def flag (b : Bool) : Word := if b then 1 else 0

/-- The word an opcode computes from its two source operands. There is none when an operand that
is read as a register names no register. -/
def result? (r : Registers) (a b : Word) : Opcode → Option Word
  | addr => do return (← r.read? a) + (← r.read? b)
  | addi => do return (← r.read? a) + b
  | mulr => do return (← r.read? a) * (← r.read? b)
  | muli => do return (← r.read? a) * b
  | banr => do return (← r.read? a) &&& (← r.read? b)
  | bani => do return (← r.read? a) &&& b
  | borr => do return (← r.read? a) ||| (← r.read? b)
  | bori => do return (← r.read? a) ||| b
  | setr => r.read? a
  | seti => some a
  | gtir => do return flag (a > (← r.read? b))
  | gtri => do return flag ((← r.read? a) > b)
  | gtrr => do return flag ((← r.read? a) > (← r.read? b))
  | eqir => do return flag (a == (← r.read? b))
  | eqri => do return flag ((← r.read? a) == b)
  | eqrr => do return flag ((← r.read? a) == (← r.read? b))

end Opcode

end Unjump
