import Unjump.Machine.Instruction

/-!
# Programs

A program binds the instruction pointer to one register and lists its instructions, all of them
well formed. The last part is a field of the type, so whoever holds a program may run its
instructions without a further check; the one way in is `Program.ofInstructions`, which blames
the first faulty operand of the first faulty instruction.
-/

namespace Unjump

/-- Instructions together with the register that serves as instruction pointer. -/
structure Program where
  ip : Reg
  instructions : Array Instruction
  wellFormed : ∀ i ∈ instructions, i.WellFormed
deriving DecidableEq

namespace Program

/-- The line of the first faulty instruction, counted from 0, with the operand to blame. -/
def firstFault? (is : List Instruction) : Option (Nat × Word) :=
  is.zipIdx.findSome? fun (i, line) ↦ i.fault?.map (line, ·)

theorem firstFault?_eq_none_iff {is : List Instruction} :
    firstFault? is = none ↔ ∀ i ∈ is, i.WellFormed := by
  simp only [firstFault?, List.findSome?_eq_none_iff, Option.map_eq_none_iff, Prod.forall]
  constructor
  · intro h i hi
    obtain ⟨n, hn, rfl⟩ := List.getElem_of_mem hi
    exact h is[n] n (by simp [List.mk_mem_zipIdx_iff_getElem?])
  · intro h i n hi
    exact h i (List.fst_mem_of_mem_zipIdx hi)

/-- A program, unless an instruction is faulty. -/
def ofInstructions (ip : Reg) (is : Array Instruction) : Except Error Program :=
  match h : firstFault? is.toList with
  | none => .ok ⟨ip, is, by simpa using firstFault?_eq_none_iff.mp h⟩
  | some (line, operand) => .error (.invalidRegister line operand)

theorem ofInstructions_eq_ok_iff {ip : Reg} {is : Array Instruction} {p : Program} :
    ofInstructions ip is = .ok p ↔ p.ip = ip ∧ p.instructions = is := by
  unfold ofInstructions
  split
  · next h =>
    rw [Except.ok.injEq]
    constructor
    · rintro rfl
      exact ⟨rfl, rfl⟩
    · obtain ⟨pip, pis, hp⟩ := p
      rintro ⟨rfl, rfl⟩
      rfl
  · next line operand h =>
    constructor
    · intro h'
      cases h'
    · rintro ⟨-, rfl⟩
      rw [firstFault?_eq_none_iff.mpr fun i hi ↦ p.wellFormed i (by simpa using hi)] at h
      cases h

def size (p : Program) : Nat := p.instructions.size

/-- The destination register of every instruction, in order. -/
def dests (p : Program) : List Reg :=
  p.instructions.attach.toList.map fun ⟨i, hi⟩ ↦ i.dest (p.wellFormed i hi)

/-- A program as a listing: the pointer binding, then one instruction a line. -/
def text (p : Program) : String :=
  p.instructions.foldl (fun s i ↦ s ++ i.text ++ "\n") ("#ip " ++ p.ip.val.repr ++ "\n")

end Program

end Unjump
