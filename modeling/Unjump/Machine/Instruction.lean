import Unjump.Error

/-!
# Instructions

An instruction is an opcode with three words: two source operands and a destination. Nothing in
the type forces its register operands to name registers, so there are two questions to ask of an
instruction. `Instruction.fault?` goes through the operands that the opcode's table reads as
registers, and then the destination, and gives the first that names none. `Instruction.exec?`
runs the instruction and has no outcome when it needs a register that does not exist.

The main fact is that the two agree (`isSome_exec?`): an instruction without a fault runs on
every register file. That makes `Instruction.exec`, on instructions known to be well formed,
total.
-/

namespace Unjump

/-- An opcode, two source operands and a destination. -/
structure Instruction where
  opcode : Opcode
  a : Word
  b : Word
  c : Word
deriving DecidableEq, Repr

namespace Instruction

/-! ## Faults -/

/-- An operand read as a register is at fault when it names none. -/
def operandFault? (kind : Opcode.Source) (operand : Word) : Option Word :=
  if kind = .register ∧ Reg.ofOperand? operand = none then some operand else none

/-- The first operand, in the order `a`, `b`, `c`, that has to name a register and names none. -/
def fault? (i : Instruction) : Option Word :=
  operandFault? i.opcode.kinds.1 i.a
    <|> operandFault? i.opcode.kinds.2 i.b
    <|> operandFault? .register i.c

/-- Every register operand names a register. -/
def WellFormed (i : Instruction) : Prop := i.fault? = none

instance (i : Instruction) : Decidable i.WellFormed :=
  inferInstanceAs (Decidable (i.fault? = none))

/-- Checks the instruction that stands at `line`. -/
def validate (i : Instruction) (line : Nat) : Except Error Unit :=
  match i.fault? with
  | none => .ok ()
  | some operand => .error (.invalidRegister line operand)

theorem validate_eq_ok_iff {i : Instruction} {line : Nat} :
    i.validate line = .ok () ↔ i.WellFormed := by
  unfold validate WellFormed
  rcases i.fault? with _ | operand <;> simp

theorem operandFault?_eq_none_iff {kind : Opcode.Source} {operand : Word} :
    operandFault? kind operand = none ↔
      (kind = .register → (Reg.ofOperand? operand).isSome) := by
  unfold operandFault?
  simp [Option.isSome_iff_ne_none]

theorem wellFormed_iff {i : Instruction} :
    i.WellFormed ↔
      (i.opcode.kinds.1 = .register → (Reg.ofOperand? i.a).isSome) ∧
      (i.opcode.kinds.2 = .register → (Reg.ofOperand? i.b).isSome) ∧
      (Reg.ofOperand? i.c).isSome := by
  simp [WellFormed, fault?, operandFault?_eq_none_iff]

/-! ## Running one instruction -/

/-- The register file after the instruction, when every register it needs exists. -/
def exec? (i : Instruction) (r : Registers) : Option Registers := do
  let w ← i.opcode.result? r i.a i.b
  let dest ← Reg.ofOperand? i.c
  return r.set dest w

/-- The word of a well-formed instruction is always defined. -/
theorem isSome_result? {op : Opcode} {a b : Word}
    (ha : op.kinds.1 = .register → (Reg.ofOperand? a).isSome)
    (hb : op.kinds.2 = .register → (Reg.ofOperand? b).isSome) (r : Registers) :
    (op.result? r a b).isSome := by
  have read : ∀ w, (Reg.ofOperand? w).isSome → ∃ v, r.read? w = some v := fun w hw ↦ by
    obtain ⟨k, hk⟩ := Option.isSome_iff_exists.mp hw
    exact ⟨r.get k, by simp [Registers.read?, hk]⟩
  cases op <;> simp only [Opcode.kinds, forall_const] at ha hb <;>
    simp only [Opcode.result?, Option.isSome_some] <;>
    grind

/-- **A well-formed instruction runs on every register file.** -/
theorem isSome_exec? {i : Instruction} (h : i.WellFormed) (r : Registers) :
    (i.exec? r).isSome := by
  obtain ⟨ha, hb, hc⟩ := wellFormed_iff.mp h
  obtain ⟨w, hw⟩ := Option.isSome_iff_exists.mp (isSome_result? ha hb r)
  obtain ⟨dest, hdest⟩ := Option.isSome_iff_exists.mp hc
  simp [exec?, hw, hdest]

/-- The register file after a well-formed instruction. -/
def exec (i : Instruction) (h : i.WellFormed) (r : Registers) : Registers :=
  (i.exec? r).get (isSome_exec? h r)

theorem exec?_eq_some_exec {i : Instruction} (h : i.WellFormed) (r : Registers) :
    i.exec? r = some (i.exec h r) := by
  simp [exec]

/-- The destination register, which a well-formed instruction has. -/
def dest (i : Instruction) (h : i.WellFormed) : Reg :=
  (Reg.ofOperand? i.c).get (wellFormed_iff.mp h).2.2

/-! ## Text -/

/-- An instruction as a line of a listing: mnemonic and operands with single blanks between. -/
def text (i : Instruction) : String :=
  i.opcode.mnemonic ++ " " ++ i.a.text ++ " " ++ i.b.text ++ " " ++ i.c.text

end Instruction

end Unjump
