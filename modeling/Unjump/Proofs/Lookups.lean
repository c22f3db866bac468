import Unjump.Machine.Run
import Unjump.Proofs.Grammar

/-!
# The registers that a run looks at

Whether the registers of an instruction exist is decided twice. The check of an instruction goes by
the table of its opcode; running it goes by what the opcode computes, and the two describe the
sixteen opcodes independently. Here a run takes *note* of every index at which it looks into the
register file or stores there, and ends at the first one that is no register's. The check passes
exactly when no such index is ever noted (`Instruction.wellFormed_iff_noted`).

## Runs

A step looks at the pointer to find its instruction, runs the instruction, and looks at the pointer
again to advance it. `Program.notedRun` does this with the bare instructions and relies on no check.
That every note is the number of a register is kept along as one fact with the outcome
(`Noted.Sound`): there is one exactly if all notes are in order. So it is enough that the noted run
of a program comes to the end that its run comes to (`Program.outcome_notedRun`).
-/

namespace Unjump

/-! ## Noting what is looked at -/

/-- What comes out of a computation on a register file, and the indexes it used on the way. Nothing
comes out when an index was no register's. -/
structure Noted (α : Type) where
  outcome : Option α
  indexes : List Word

namespace Noted

variable {α β : Type}

instance : Monad Noted where
  pure a := ⟨some a, []⟩
  bind x f :=
    match x.outcome with
    | none => ⟨none, x.indexes⟩
    | some a => ⟨(f a).outcome, x.indexes ++ (f a).indexes⟩

theorem outcome_pure (a : α) : (pure a : Noted α).outcome = some a := rfl

theorem bind_of_none {x : Noted α} (h : x.outcome = none) (f : α → Noted β) :
    x >>= f = ⟨none, x.indexes⟩ := by
  simp only [bind, h]

theorem bind_of_some {x : Noted α} {a : α} (h : x.outcome = some a) (f : α → Noted β) :
    x >>= f = ⟨(f a).outcome, x.indexes ++ (f a).indexes⟩ := by
  simp only [bind, h]

theorem outcome_bind (x : Noted α) (f : α → Noted β) :
    (x >>= f).outcome = x.outcome.bind fun a ↦ (f a).outcome := by
  rcases h : x.outcome with _ | a
  · rw [bind_of_none h, Option.bind_none]
  · rw [bind_of_some h, Option.bind_some]

/-- Something comes out exactly if every index is the number of a register. -/
def Sound (x : Noted α) : Prop := x.outcome.isSome ↔ ∀ w ∈ x.indexes, w.NamesRegister

theorem sound_pure (a : α) : (pure a : Noted α).Sound :=
  ⟨fun _ _ hw ↦ absurd hw List.not_mem_nil, fun _ ↦ rfl⟩

theorem Sound.bind {x : Noted α} {f : α → Noted β} (hx : x.Sound) (hf : ∀ a, (f a).Sound) :
    (x >>= f).Sound := by
  unfold Sound at hx
  rcases h : x.outcome with _ | a
  · rw [h] at hx
    rw [bind_of_none h]
    exact hx
  · rw [h] at hx
    have hnoted : ∀ w ∈ x.indexes, w.NamesRegister := hx.mp rfl
    rw [bind_of_some h, Sound, List.forall_mem_append]
    exact (hf a).trans ⟨fun hrest ↦ ⟨hnoted, hrest⟩, fun hall ↦ hall.2⟩

end Noted

namespace Registers

/-- Looks at an index of the register file. -/
def lookUp (r : Registers) (w : Word) : Noted Word := ⟨r.read? w, [w]⟩

/-- Stores a word at an index of the register file. -/
def storeAt (r : Registers) (w v : Word) : Noted Registers :=
  ⟨(Reg.ofOperand? w).map fun x ↦ r.set x v, [w]⟩

theorem sound_lookUp (r : Registers) (w : Word) : (r.lookUp w).Sound := by
  rw [Noted.Sound, lookUp, List.forall_mem_singleton, read?, Option.isSome_map,
    Reg.isSome_ofOperand?_iff]

theorem sound_storeAt (r : Registers) (w v : Word) : (r.storeAt w v).Sound := by
  rw [Noted.Sound, storeAt, List.forall_mem_singleton, Option.isSome_map,
    Reg.isSome_ofOperand?_iff]

end Registers

/-! ## Instructions -/

namespace Opcode

/-- The word an opcode computes from its two source operands, with a note of the registers it reads
on the way. -/
def noted (r : Registers) (a b : Word) : Opcode → Noted Word
  | addr => do return (← r.lookUp a) + (← r.lookUp b)
  | addi => do return (← r.lookUp a) + b
  | mulr => do return (← r.lookUp a) * (← r.lookUp b)
  | muli => do return (← r.lookUp a) * b
  | banr => do return (← r.lookUp a) &&& (← r.lookUp b)
  | bani => do return (← r.lookUp a) &&& b
  | borr => do return (← r.lookUp a) ||| (← r.lookUp b)
  | bori => do return (← r.lookUp a) ||| b
  | setr => r.lookUp a
  | seti => pure a
  | gtir => do return flag (a > (← r.lookUp b))
  | gtri => do return flag ((← r.lookUp a) > b)
  | gtrr => do return flag ((← r.lookUp a) > (← r.lookUp b))
  | eqir => do return flag (a == (← r.lookUp b))
  | eqri => do return flag ((← r.lookUp a) == b)
  | eqrr => do return flag ((← r.lookUp a) == (← r.lookUp b))

theorem outcome_noted (r : Registers) (a b : Word) (op : Opcode) :
    (op.noted r a b).outcome = op.result? r a b := by
  cases op <;> simp only [noted, Noted.outcome_bind, Noted.outcome_pure, Registers.lookUp] <;> rfl

theorem sound_noted (r : Registers) (a b : Word) (op : Opcode) : (op.noted r a b).Sound := by
  cases op with
  | addr | mulr | banr | borr | gtrr | eqrr =>
    exact (r.sound_lookUp a).bind fun _ ↦ (r.sound_lookUp b).bind fun _ ↦ Noted.sound_pure _
  | addi | muli | bani | bori | gtri | eqri =>
    exact (r.sound_lookUp a).bind fun _ ↦ Noted.sound_pure _
  | gtir | eqir => exact (r.sound_lookUp b).bind fun _ ↦ Noted.sound_pure _
  | setr => exact r.sound_lookUp a
  | seti => exact Noted.sound_pure a

/-- Nothing is computed from a source that is to be read as a register and names none. -/
theorem result?_eq_none {r : Registers} {a b : Word} {op : Opcode}
    (h : op.kinds.1 = .register ∧ r.read? a = none ∨ op.kinds.2 = .register ∧ r.read? b = none) :
    op.result? r a b = none := by
  rcases h with ⟨hk, hr⟩ | ⟨hk, hr⟩
  · cases op <;> simp_all [kinds, result?]
  · cases op <;> simp_all [kinds, result?]

end Opcode

namespace Instruction

variable {i : Instruction} {r r' : Registers}

/-- The instruction with a note of every index, the destination's last. -/
def noted (i : Instruction) (r : Registers) : Noted Registers := do
  r.storeAt i.c (← i.opcode.noted r i.a i.b)

theorem outcome_noted (i : Instruction) (r : Registers) : (i.noted r).outcome = i.exec? r := by
  rw [noted, Noted.outcome_bind, Opcode.outcome_noted, exec?]
  rcases i.opcode.result? r i.a i.b with _ | w
  · rfl
  · rcases h : Reg.ofOperand? i.c with _ | dest <;> simp [Registers.storeAt, h]

theorem sound_noted (i : Instruction) (r : Registers) : (i.noted r).Sound :=
  (Opcode.sound_noted r i.a i.b i.opcode).bind fun w ↦ r.sound_storeAt i.c w

theorem exec?_eq_some_iff :
    i.exec? r = some r' ↔ ∃ w dest, i.opcode.result? r i.a i.b = some w ∧
      Reg.ofOperand? i.c = some dest ∧ r' = r.set dest w := by
  simp only [exec?, Option.bind_eq_bind, Option.bind_eq_some_iff, Option.pure_def,
    Option.some.injEq]
  constructor
  · rintro ⟨w, hw, dest, hdest, rfl⟩
    exact ⟨w, dest, hw, hdest, rfl⟩
  · rintro ⟨w, dest, hw, hdest, rfl⟩
    exact ⟨w, hw, dest, hdest, rfl⟩

/-- An instruction that runs has the registers that the check asks for. -/
theorem wellFormed_of_isSome_exec? (h : (i.exec? r).isSome) : i.WellFormed := by
  obtain ⟨r', hr'⟩ := Option.isSome_iff_exists.mp h
  obtain ⟨w, dest, hw, hdest, -⟩ := exec?_eq_some_iff.mp hr'
  have isSome_of_read? {o : Word} (ho : r.read? o ≠ none) : (Reg.ofOperand? o).isSome := by
    rwa [Registers.read?, ← Option.isSome_iff_ne_none, Option.isSome_map] at ho
  refine wellFormed_iff.mpr ⟨fun hk ↦ isSome_of_read? fun ho ↦ ?_,
    fun hk ↦ isSome_of_read? fun ho ↦ ?_, by rw [hdest, Option.isSome_some]⟩
  · rw [Opcode.result?_eq_none (.inl ⟨hk, ho⟩)] at hw
    contradiction
  · rw [Opcode.result?_eq_none (.inr ⟨hk, ho⟩)] at hw
    contradiction

/-- **The check passes exactly if running the instruction looks at registers only.** -/
theorem wellFormed_iff_noted (r : Registers) :
    i.WellFormed ↔ ∀ w ∈ (i.noted r).indexes, w.NamesRegister := by
  have hsound := sound_noted i r
  rw [Noted.Sound, outcome_noted] at hsound
  rw [← hsound]
  exact ⟨fun h ↦ isSome_exec? h r, wellFormed_of_isSome_exec?⟩

/-- An instruction changes its destination at most. -/
theorem get_of_exec? (h : i.exec? r = some r') {x : Reg} (hx : (x.val : Int) ≠ i.c.toInt) :
    r'.get x = r.get x := by
  obtain ⟨w, dest, -, hdest, rfl⟩ := exec?_eq_some_iff.mp h
  refine r.get_set_of_ne (fun heq ↦ hx ?_) w
  rw [Reg.ofOperand?_eq_some_iff.mp hdest, heq]

end Instruction

/-! ## Programs -/

/-- The word that names a register. -/
def Reg.operand (x : Reg) : Word := Int64.ofNat x.val

theorem Reg.ofOperand?_operand (x : Reg) : Reg.ofOperand? x.operand = some x := by
  have hx := x.isLt
  exact Reg.ofOperand?_eq_some_iff.mpr (Int64.toInt_ofNat_of_lt (by omega))

theorem Registers.outcome_lookUp (r : Registers) (x : Reg) :
    (r.lookUp x.operand).outcome = some (r.get x) := by
  rw [lookUp, read?, Reg.ofOperand?_operand, Option.map_some]

theorem Registers.outcome_storeAt (r : Registers) (x : Reg) (w : Word) :
    (r.storeAt x.operand w).outcome = some (r.set x w) := by
  rw [storeAt, Reg.ofOperand?_operand, Option.map_some]

namespace Program

variable {p : Program} {r r' : Registers}

/-- The instruction that a word numbers, if there is one. -/
def instructionAt? (p : Program) (w : Word) : Option Instruction :=
  w.line?.bind fun n ↦ p.instructions[n]?

/-- Runs an instruction and advances the pointer. -/
def notedStep (p : Program) (i : Instruction) (r : Registers) : Noted Registers := do
  let r' ← i.noted r
  r'.storeAt p.ip.operand ((← r'.lookUp p.ip.operand) + 1)

/-- Runs as `Program.runWithin` does, with a note of every index. -/
def notedRun (p : Program) (budget : Nat) (r : Registers) : Noted (Option (Registers × Nat)) := do
  match p.instructionAt? (← r.lookUp p.ip.operand) with
  | none => return some (r, budget)
  | some i =>
    match budget with
    | 0 => return none
    | budget + 1 => p.notedRun budget (← p.notedStep i r)

theorem sound_notedStep (p : Program) (i : Instruction) (r : Registers) :
    (p.notedStep i r).Sound :=
  (i.sound_noted r).bind fun r' ↦ (r'.sound_lookUp p.ip.operand).bind fun w ↦
    r'.sound_storeAt p.ip.operand (w + 1)

theorem sound_notedRun (p : Program) (budget : Nat) (r : Registers) :
    (p.notedRun budget r).Sound := by
  induction budget generalizing r with
  | zero =>
    rw [notedRun]
    refine (r.sound_lookUp p.ip.operand).bind fun w ↦ ?_
    rcases p.instructionAt? w with _ | i
    · exact Noted.sound_pure _
    · exact Noted.sound_pure _
  | succ budget ih =>
    rw [notedRun]
    refine (r.sound_lookUp p.ip.operand).bind fun w ↦ ?_
    rcases p.instructionAt? w with _ | i
    · exact Noted.sound_pure _
    · exact (p.sound_notedStep i r).bind ih

/-- The instruction that the pointer numbers is the one that runs next. -/
theorem instructionAt?_cases (p : Program) (r : Registers) :
    (p.pc? r = none ∧ p.instructionAt? (r.get p.ip) = none) ∨
      ∃ n i, p.pc? r = some n ∧ p.instructions[n.val]? = some i ∧
        p.instructionAt? (r.get p.ip) = some i := by
  unfold pc? instructionAt?
  rcases (r.get p.ip).line? with _ | n
  · exact .inl ⟨rfl, rfl⟩
  · by_cases h : n < p.instructions.size
    · have hi := Array.getElem?_eq_getElem h
      exact .inr ⟨⟨n, h⟩, _, dif_pos h, hi, hi⟩
    · exact .inl ⟨dif_neg h, Array.getElem?_eq_none (Nat.le_of_not_lt h)⟩

theorem exec?_of_getElem? {n : Fin p.instructions.size} {i : Instruction}
    (hi : p.instructions[n.val]? = some i) (r : Registers) :
    ∃ q, i.exec? r = some q ∧ p.execAt n r = q.set p.ip (q.get p.ip + 1) := by
  obtain ⟨hn, rfl⟩ := Array.getElem?_eq_some_iff.mp hi
  exact ⟨_, Instruction.exec?_eq_some_exec (p.wellFormed _ (Array.getElem_mem hn)) r, rfl⟩

theorem outcome_notedStep {n : Fin p.instructions.size} {i : Instruction}
    (hi : p.instructions[n.val]? = some i) (r : Registers) :
    (p.notedStep i r).outcome = some (p.execAt n r) := by
  obtain ⟨q, hq, hexec⟩ := exec?_of_getElem? hi r
  rw [notedStep, Noted.outcome_bind, Instruction.outcome_noted, hq, Option.bind_some,
    Noted.outcome_bind, Registers.outcome_lookUp, Option.bind_some, Registers.outcome_storeAt,
    hexec]

/-- **The noted run comes to the end that the run comes to.** -/
theorem outcome_notedRun (p : Program) (budget : Nat) (r : Registers) :
    (p.notedRun budget r).outcome = some (p.runWithin budget r) := by
  induction budget generalizing r with
  | zero =>
    rw [notedRun, Noted.outcome_bind, Registers.outcome_lookUp, Option.bind_some, runWithin, step?]
    rcases p.instructionAt?_cases r with ⟨hpc, hat⟩ | ⟨n, i, hpc, -, hat⟩
    · rw [hpc, hat]
      rfl
    · rw [hpc, hat]
      rfl
  | succ budget ih =>
    rw [notedRun, Noted.outcome_bind, Registers.outcome_lookUp, Option.bind_some, runWithin, step?]
    rcases p.instructionAt?_cases r with ⟨hpc, hat⟩ | ⟨n, i, hpc, hi, hat⟩
    · rw [hpc, hat]
      rfl
    · rw [hpc, hat]
      simp only [Option.map_some]
      rw [Noted.outcome_bind, outcome_notedStep hi, Option.bind_some, ih]

/-- A step changes the destination of its instruction and the pointer at most. -/
theorem get_of_step? (h : p.step? r = some r') :
    ∃ i, p.instructionAt? (r.get p.ip) = some i ∧
      ∀ x, x ≠ p.ip → (x.val : Int) ≠ i.c.toInt → r'.get x = r.get x := by
  obtain ⟨n, hn, rfl⟩ := Option.map_eq_some_iff.mp h
  rcases p.instructionAt?_cases r with ⟨hpc, -⟩ | ⟨m, i, hpc, hi, hat⟩
  · rw [hpc] at hn
    contradiction
  · obtain rfl : n = m := Option.some.inj (hn.symm.trans hpc)
    obtain ⟨q, hq, hexec⟩ := exec?_of_getElem? hi r
    refine ⟨i, hat, fun x hip hx ↦ ?_⟩
    rw [hexec, Registers.get_set_of_ne _ hip.symm]
    exact Instruction.get_of_exec? hq hx

end Program

/-- **Checking is exactly what running needs.** An instruction passes its check if and only if
running it, from whatever register file, looks and stores at indexes of registers only; it then runs
and changes no register but its destination. So no run of a program, built from instructions or read
from a listing or a data form, ever leaves the register file: with all its indexes noted and none of
them checked it goes as the run does, and every index is the number of a register. A step, from any
state that a run may get to, changes the destination of its instruction and the pointer at most. -/
theorem validation_exact :
    (∀ (i : Instruction) (line : Nat) (r : Registers),
      (i.noted r).outcome = i.exec? r ∧
      (i.validate line = .ok () ↔ ∀ w ∈ (i.noted r).indexes, w.NamesRegister) ∧
      (i.validate line = .ok () → ∃ r', i.exec? r = some r' ∧
        ∀ x : Reg, (x.val : Int) ≠ i.c.toInt → r'.get x = r.get x)) ∧
    ∀ (p : Program) (r : Registers),
      (∀ budget, (p.notedRun budget r).outcome = some (p.runWithin budget r) ∧
        ∀ w ∈ (p.notedRun budget r).indexes, w.NamesRegister) ∧
      ∀ r', p.step? r = some r' → ∃ i, p.instructionAt? (r.get p.ip) = some i ∧
        ∀ x, x ≠ p.ip → (x.val : Int) ≠ i.c.toInt → r'.get x = r.get x := by
  refine ⟨fun i line r ↦ ⟨i.outcome_noted r, ?_, fun h ↦ ?_⟩,
    fun p r ↦ ⟨fun budget ↦ ⟨p.outcome_notedRun budget r, ?_⟩, fun r' ↦ Program.get_of_step?⟩⟩
  · rw [Instruction.validate_eq_ok_iff]
    exact Instruction.wellFormed_iff_noted r
  · have hexec := Instruction.exec?_eq_some_exec (Instruction.validate_eq_ok_iff.mp h) r
    exact ⟨_, hexec, fun x ↦ Instruction.get_of_exec? hexec⟩
  · refine (p.sound_notedRun budget r).mp ?_
    rw [p.outcome_notedRun budget r, Option.isSome_some]

/-- Copies the pointer with an operand that is not looked at, and then throws it out. -/
def Program.copyPointer : Program := ⟨2, #[⟨.setr, 2, -7, 0⟩, ⟨.muli, 2, 9, 2⟩], by decide⟩

theorem validation_exact_copyPointer :
    let i : Instruction := ⟨.setr, 2, -7, 0⟩
    let r : Registers := ⟨#v[5, 6, 0, 7, 8, 9]⟩
    let r' : Registers := ⟨#v[0, 6, 1, 7, 8, 9]⟩
    (i.validate 0 = .ok () ∧ (i.noted r).indexes = [2, 0] ∧ ∃ q, i.exec? r = some q ∧
      ∀ x : Reg, (x.val : Int) ≠ 0 → q.get x = r.get x) ∧
    (Program.copyPointer.step? r = some r' ∧
      ∃ j, Program.copyPointer.instructionAt? 0 = some j ∧
        ∀ x, x ≠ 2 → (x.val : Int) ≠ j.c.toInt → r'.get x = r.get x) ∧
    ∀ w ∈ (Program.copyPointer.notedRun 5 r).indexes, w.NamesRegister := by
  intro i r r'
  obtain ⟨hinstruction, hprogram⟩ := validation_exact
  obtain ⟨hruns, hstep⟩ := hprogram Program.copyPointer r
  have hok : i.validate 0 = .ok () := rfl
  have hr' : Program.copyPointer.step? r = some r' := by decide
  exact ⟨⟨hok, rfl, (hinstruction i 0 r).2.2 hok⟩, ⟨hr', hstep r' hr'⟩, (hruns 5).2⟩

end Unjump
