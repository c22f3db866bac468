import Unjump.Proofs.Refusals

/-!
# Lifting an instruction whose registers are missing

The instructions of a program have passed their check, but an instruction can be lifted by itself,
and then lifting has to find out that a register is missing. It looks at the operands on its own and
in another order than the check: at the destination first, because that decides what becomes of the
sources.

## Where lifting looks

Where the destination is missing, or is an ordinary register, lifting looks at every operand that
the check looks at, and blames one of them (`Instruction.blamesMissing_of_ne`). A write to the
pointer is told by its form instead. Only the sum of the pointer and another register has its
sources looked at. All other forms are decided without (`Instruction.Overlooked`): a product ends
the code even if its factors are nowhere to be found, and what is left is refused for its opcode.
-/

namespace Unjump

namespace Instruction

variable {ip dest : Reg} {line : Nat} {i : Instruction}

/-- Lifting blames an operand that has to name a register and names none. -/
def BlamesMissing (ip : Reg) (line : Nat) (i : Instruction) : Prop :=
  ∃ w ∈ i.registerOperands, ¬w.NamesRegister ∧
    i.lift ip line = .error (.invalidRegister line w)

/-- The instruction writes the pointer, but not as the sum of the pointer and another operand, so
that lifting does not look for the registers of its sources. -/
def Overlooked (ip : Reg) (i : Instruction) : Prop :=
  i.c.toInt = ip.val ∧ ¬(i.opcode = .addr ∧ ¬(i.a.toInt = ip.val ↔ i.b.toInt = ip.val))

instance (ip : Reg) (i : Instruction) : Decidable (i.Overlooked ip) :=
  inferInstanceAs (Decidable (_ ∧ ¬(_ ∧ ¬(_ ↔ _))))

/-! ## One operand -/

theorem a_mem_registerOperands (h : i.opcode.kinds.1 = .register) : i.a ∈ i.registerOperands := by
  simp [registerOperands, h]

theorem b_mem_registerOperands (h : i.opcode.kinds.2 = .register) : i.b ∈ i.registerOperands := by
  simp [registerOperands, h]

theorem c_mem_registerOperands (i : Instruction) : i.c ∈ i.registerOperands := by
  simp [registerOperands]

theorem register_cases (line : Nat) (w : Word) :
    (w.NamesRegister ∧ ∃ x, register line w = .ok x) ∨
      (¬w.NamesRegister ∧ register line w = .error (.invalidRegister line w)) := by
  rw [← Reg.isSome_ofOperand?_iff, register]
  rcases Reg.ofOperand? w with _ | x
  · exact .inr ⟨Bool.false_ne_true, rfl⟩
  · exact .inl ⟨rfl, x, rfl⟩

theorem source_cases (ip : Reg) (line : Nat) (kind : Opcode.Source) (w : Word) :
    ((kind = .register → w.NamesRegister) ∧ ∃ e, source ip line kind w = .ok e) ∨
      (kind = .register ∧ ¬w.NamesRegister ∧
        source ip line kind w = .error (.invalidRegister line w)) := by
  by_cases h : kind = .register → w.NamesRegister
  · exact .inl ⟨h, exists_source fun hk ↦ Reg.isSome_ofOperand?_iff.mpr (h hk)⟩
  · obtain ⟨rfl, hw⟩ := Classical.not_imp.mp h
    rcases register_cases line w with ⟨hw', -⟩ | ⟨-, he⟩
    · exact absurd hw' hw
    · refine .inr ⟨rfl, hw, ?_⟩
      rw [source, he]
      rfl

theorem wellFormed_iff_names :
    i.WellFormed ↔ (i.opcode.kinds.1 = .register → i.a.NamesRegister) ∧
      (i.opcode.kinds.2 = .register → i.b.NamesRegister) ∧ i.c.NamesRegister := by
  rw [wellFormed_iff, Reg.isSome_ofOperand?_iff, Reg.isSome_ofOperand?_iff,
    Reg.isSome_ofOperand?_iff]

/-! ## Other destinations than the pointer -/

theorem lift_of_dest (hdest : Reg.ofOperand? i.c = some dest) :
    i.lift ip line =
      if dest = ip then i.liftPointerWrite ip line
      else source ip line i.opcode.kinds.1 i.a >>= fun a ↦
        source ip line i.opcode.kinds.2 i.b >>= fun b ↦ pure (store dest a b i.opcode) := by
  rw [lift, register_eq_ok_iff.mpr hdest]
  rfl

/-- **An instruction with a missing register that does not write the pointer is blamed for it.** -/
theorem blamesMissing_of_ne (h : ¬i.WellFormed) (hc : i.c.toInt ≠ ip.val) :
    i.BlamesMissing ip line := by
  rcases register_cases line i.c with ⟨hnames, dest, hdest⟩ | ⟨hmissing, he⟩
  · have hdest' := register_eq_ok_iff.mp hdest
    have hne : dest ≠ ip := fun heq ↦ hc (heq ▸ Reg.ofOperand?_eq_some_iff.mp hdest')
    have hlift := @lift_of_dest ip dest line i hdest'
    rw [if_neg hne] at hlift
    rcases source_cases ip line i.opcode.kinds.1 i.a with ⟨ha, ea, hea⟩ | ⟨hk, ha, he⟩
    · rcases source_cases ip line i.opcode.kinds.2 i.b with ⟨hb, -⟩ | ⟨hk, hb, he⟩
      · exact absurd (wellFormed_iff_names.mpr ⟨ha, hb, hnames⟩) h
      · refine ⟨i.b, b_mem_registerOperands hk, hb, ?_⟩
        rw [hlift, hea, he]
        rfl
    · refine ⟨i.a, a_mem_registerOperands hk, ha, ?_⟩
      rw [hlift, he]
      rfl
  · refine ⟨i.c, c_mem_registerOperands i, hmissing, ?_⟩
    rw [lift, he]
    rfl

/-! ## Writes to the pointer -/

theorem lift_of_pointer (hc : i.c.toInt = ip.val) : i.lift ip line = i.liftPointerWrite ip line := by
  rw [lift_of_dest (Reg.ofOperand?_eq_some_iff.mpr hc), if_pos rfl]

theorem namesRegister_of_toInt {w : Word} {x : Reg} (h : w.toInt = x.val) : w.NamesRegister :=
  Reg.isSome_ofOperand?_iff.mp (Option.isSome_of_eq_some (Reg.ofOperand?_eq_some_iff.mpr h))

theorem isPointer_bne_iff {a b : Word} :
    ((Reg.ofOperand? a == some ip) != (Reg.ofOperand? b == some ip)) = true ↔
      ¬(a.toInt = ip.val ↔ b.toInt = ip.val) := by
  rw [bne_iff_ne, ne_eq, Bool.eq_iff_iff, isPointer_iff, isPointer_iff]

/-- The sum of the pointer and an operand that names no register is blamed for that operand. -/
theorem blamesMissing_of_sum (h : ¬i.WellFormed) (hc : i.c.toInt = ip.val) (hop : i.opcode = .addr)
    (hone : ¬(i.a.toInt = ip.val ↔ i.b.toInt = ip.val)) : i.BlamesMissing ip line := by
  have hkinds : i.opcode.kinds = (.register, .register) := by rw [hop]; rfl
  have hlift : i.lift ip line = register line i.a >>= fun x ↦ register line i.b >>= fun y ↦
      pure (.assign ip (.bin .add (.reg x) (.reg y))) := by
    rw [lift_of_pointer hc, liftPointerWrite]
    simp only [hop]
    rw [if_pos (isPointer_bne_iff.mpr hone)]
  rcases register_cases line i.a with ⟨ha, x, hx⟩ | ⟨ha, he⟩
  · rcases register_cases line i.b with ⟨hb, -⟩ | ⟨hb, he⟩
    · exact absurd
        (wellFormed_iff_names.mpr ⟨fun _ ↦ ha, fun _ ↦ hb, namesRegister_of_toInt hc⟩) h
    · refine ⟨i.b, b_mem_registerOperands (by rw [hkinds]), hb, ?_⟩
      rw [hlift, hx, he]
      rfl
  · refine ⟨i.a, a_mem_registerOperands (by rw [hkinds]), ha, ?_⟩
    rw [hlift, he]
    rfl

/-- Of the other writes to the pointer that miss a register, products end the code and all others
are blamed on their opcode. -/
theorem lift_of_overlooked (h : ¬i.WellFormed) (ho : i.Overlooked ip) :
    i.lift ip line =
      if i.opcode = .mulr then .ok .halt else .error (.unsupportedJump line i.opcode) := by
  obtain ⟨hc, hform⟩ := ho
  rw [lift_of_pointer hc]
  obtain ⟨op, a, b, c⟩ := i
  rw [wellFormed_iff_names] at h
  have hnames : c.NamesRegister := namesRegister_of_toInt hc
  cases op with
  | mulr => rfl
  | addr =>
    have hboth : a.toInt = ip.val ↔ b.toInt = ip.val :=
      Classical.not_not.mp fun hone ↦ hform ⟨rfl, hone⟩
    simp only [liftPointerWrite]
    rw [if_neg (mt isPointer_bne_iff.mp (Classical.not_not.mpr hboth)), if_neg (by decide)]
  | addi =>
    -- the first operand is the missing one, so it is not the pointer
    have hne : a.toInt ≠ ip.val := fun ha ↦
      h ⟨fun _ ↦ namesRegister_of_toInt ha, fun hk ↦ by contradiction, hnames⟩
    simp only [liftPointerWrite]
    rw [if_neg (mt isPointer_iff.mp hne)]
    rfl
  | seti => exact absurd ⟨fun hk ↦ by contradiction, fun hk ↦ by contradiction, hnames⟩ h
  | _ => rfl

/-! ## Instructions in general -/

/-- **A missing register is blamed unless it is overlooked**, whatever the instruction. Lifting an
instruction that fails its check never gives a statement and never blames anything else, except for
the writes to the pointer whose sources it does not look at: of these, products end the code, and
all others are blamed on their opcode. -/
theorem lift_blames_missing (h : i.validate line ≠ .ok ()) :
    (i.BlamesMissing ip line ↔ ¬i.Overlooked ip) ∧
    (i.Overlooked ip → i.lift ip line =
      if i.opcode = .mulr then .ok .halt else .error (.unsupportedJump line i.opcode)) := by
  have hfault : ¬i.WellFormed := mt validate_eq_ok_iff.mpr h
  refine ⟨⟨?_, fun ho ↦ ?_⟩, lift_of_overlooked hfault⟩
  · rintro ⟨w, -, -, he⟩ ho
    rw [lift_of_overlooked hfault ho] at he
    split at he <;> cases he
  · by_cases hc : i.c.toInt = ip.val
    · obtain ⟨hop, hone⟩ := Classical.not_not.mp fun hsum ↦ ho ⟨hc, hsum⟩
      exact blamesMissing_of_sum hfault hc hop hone
    · exact blamesMissing_of_ne hfault hc

/-- The check blames the first of two missing registers, and lifting the destination. Where only the
other summand of the pointer is missing, both blame that. -/
theorem lift_blames_missing_twice :
    let i : Instruction := ⟨.addr, 9, 1, -1⟩
    let j : Instruction := ⟨.addr, 4, 7, 4⟩
    (i.validate 6 = .error (.invalidRegister 6 9) ∧ i.BlamesMissing 4 6) ∧
      (j.validate 6 = .error (.invalidRegister 6 7) ∧ j.BlamesMissing 4 6) := by
  intro i j
  have hi : i.validate 6 = .error (.invalidRegister 6 9) := by decide
  have hj : j.validate 6 = .error (.invalidRegister 6 7) := by decide
  obtain ⟨hblamei, -⟩ := @lift_blames_missing 4 6 i (by rw [hi]; decide)
  obtain ⟨hblamej, -⟩ := @lift_blames_missing 4 6 j (by rw [hj]; decide)
  exact ⟨⟨hi, hblamei.mpr (by decide)⟩, ⟨hj, hblamej.mpr (by decide)⟩⟩

/-- A product into the pointer ends the code, though one of its factors is missing. -/
theorem lift_missingFactor :
    let i : Instruction := ⟨.mulr, 9, 1, 4⟩
    i.validate 6 = .error (.invalidRegister 6 9) ∧ i.lift 4 6 = .ok .halt ∧
      ¬i.BlamesMissing 4 6 := by
  intro i
  have hlift : i.lift 4 6 = .ok .halt := rfl
  refine ⟨by decide, hlift, ?_⟩
  rintro ⟨w, -, -, he⟩
  rw [hlift] at he
  contradiction

end Instruction

end Unjump
