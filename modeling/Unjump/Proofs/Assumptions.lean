import Unjump.Proofs.Covering

/-!
# What a decompilation assumes of a run

Three things are taken for granted of the machine. A product into the pointer ends the program; a
register that is added to the pointer holds 0 or 1; and the flag of a comparison that the skip by it
follows is not used for anything else, so that its store can go when the two become a branch.
`Program.Assumptions` asks them of a run within a budget, and only of the instructions that the run
comes to.

## Registers that are not read

That a flag is used for nothing else means that, from the comparison on, no other instruction reads
it before one writes it (`Program.unread`). At the end register 0 is read. This is a property of the
run and not of the text: the flag may well be read on ways that the run does not take.

## Steps of lifted code

Lifted code reads and writes what the instructions read and write, pointer aside, so what is said
here of instructions holds of statements. `Program.exists_step` puts a step of the machine and one
of lifted code side by side.
-/

namespace Unjump

/-! ## Instructions -/

namespace Instruction

def reads (i : Instruction) (x : Reg) : Bool :=
  (i.opcode.kinds.1 == .register && Reg.ofOperand? i.a == some x) ||
    (i.opcode.kinds.2 == .register && Reg.ofOperand? i.b == some x)

def writes (i : Instruction) (x : Reg) : Bool := Reg.ofOperand? i.c == some x

/-- The other register that the instruction adds, if it is a sum of registers into the pointer. -/
def skip? (ip : Reg) (i : Instruction) : Option Reg :=
  if i.opcode = .addr ∧ i.writes ip then
    if Reg.ofOperand? i.a = some ip then Reg.ofOperand? i.b else Reg.ofOperand? i.a
  else none

/-- The register that the instruction stores a flag into, if it is a comparison. -/
def flag? (i : Instruction) : Option Reg :=
  match i.opcode with
  | .gtir | .gtri | .gtrr | .eqir | .eqri | .eqrr => Reg.ofOperand? i.c
  | _ => none

end Instruction

/-! ## Runs -/

namespace Program

/-- Whether the machine reads a register next: by the instruction that runs next, unless that is at
`line`, or because it has halted and the register is the one looked at. -/
def readsNext (p : Program) (x : Reg) (line : Nat) (q : Registers) : Bool :=
  match p.pc? q with
  | none => x == 0
  | some n => n.val != line && p.instructions[n.val]?.any fun i ↦ i.reads x

/-- Whether the instruction that runs next writes a register. -/
def writesNext (p : Program) (x : Reg) (q : Registers) : Bool :=
  (p.pc? q).any fun n ↦ p.instructions[n.val]?.any fun i ↦ i.writes x

/-- Within the budget a register is not read before it is written, except at `line`. -/
def unread (p : Program) (x : Reg) (line : Nat) : Nat → Registers → Bool
  | 0, q => !p.readsNext x line q
  | budget + 1, q => !p.readsNext x line q &&
      (p.writesNext x q || (p.step? q).all (p.unread x line budget))

/-- A sum into the pointer that runs next adds 0 or 1. -/
def SkipByFlag (p : Program) (q : Registers) : Prop :=
  ∀ n ∈ p.pc? q, ∀ i ∈ p.instructions[n.val]?, ∀ x ∈ i.skip? p.ip, q.get x = 0 ∨ q.get x = 1

/-- The flag of a comparison that runs next, and that the sum of the flag and the pointer follows,
is read by nothing but that sum. -/
def FlagUnread (p : Program) (budget : Nat) (q : Registers) : Prop :=
  ∀ n ∈ p.pc? q, ∀ i ∈ p.instructions[n.val]?, ∀ x ∈ i.flag?, ∀ i' ∈ p.instructions[n.val + 1]?,
    i'.skip? p.ip = some x → p.unread x (n.val + 1) budget (p.execAt n q) = true

/-- What a decompilation assumes of a run within a budget. -/
structure Assumptions (p : Program) (budget : Nat) (q : Registers) : Prop where
  products : p.ProductsEnd budget q
  skips : ∀ k < budget, ∀ q' ∈ p.after k q, p.SkipByFlag q'
  flags : ∀ k < budget, ∀ q' ∈ p.after k q, p.FlagUnread (budget - (k + 1)) q'

instance (p : Program) (q : Registers) : Decidable (p.SkipByFlag q) :=
  inferInstanceAs (Decidable (∀ n ∈ p.pc? q, ∀ i ∈ p.instructions[n.val]?, ∀ x ∈ i.skip? p.ip,
    q.get x = 0 ∨ q.get x = 1))

instance (p : Program) (budget : Nat) (q : Registers) : Decidable (p.FlagUnread budget q) :=
  inferInstanceAs (Decidable (∀ n ∈ p.pc? q, ∀ i ∈ p.instructions[n.val]?, ∀ x ∈ i.flag?,
    ∀ i' ∈ p.instructions[n.val + 1]?, i'.skip? p.ip = some x →
      p.unread x (n.val + 1) budget (p.execAt n q) = true))

variable {p : Program} {code : Code} {q q' : Registers} {budget n : Nat} {x : Reg} {line : Nat}

theorem Assumptions.of_step? (h : p.Assumptions (budget + 1) q) (hs : p.step? q = some q') :
    p.Assumptions budget q' := by
  have hafter (k : Nat) : p.after k q' = p.after (k + 1) q := by rw [after, hs, Option.bind_some]
  refine ⟨h.products.of_step? hs, fun k hk q'' hq'' ↦ ?_, fun k hk q'' hq'' ↦ ?_⟩
  · exact h.skips (k + 1) (by omega) q'' (hafter k ▸ hq'')
  · have hflag := h.flags (k + 1) (by omega) q'' (hafter k ▸ hq'')
    rwa [Nat.add_sub_add_right] at hflag

theorem readsNext_of_unread (h : p.unread x line budget q = true) :
    p.readsNext x line q = false := by
  cases budget with
  | zero => simpa [unread] using h
  | succ budget =>
    rw [unread, Bool.and_eq_true] at h
    simpa using h.1

/-- At the end only registers other than 0 are unread. -/
theorem ne_zero_of_unread (h : p.unread x line budget q = true) (hpc : p.pc? q = none) :
    x ≠ 0 := by
  have hread := readsNext_of_unread h
  rw [readsNext, hpc] at hread
  simpa using hread

/-- What is unread is not read next, and stays unread if it is not written next. -/
theorem unread_step (h : p.unread x line (budget + 1) q = true) {m : Fin p.instructions.size}
    (hpc : p.pc? q = some m) {i : Instruction} (hi : p.instructions[m.val]? = some i) :
    (m.val ≠ line → i.reads x = false) ∧
      (i.writes x = false → p.unread x line budget (p.execAt m q) = true) := by
  have hread := readsNext_of_unread h
  rw [readsNext, hpc] at hread
  simp only [hi, Option.any_some] at hread
  rw [unread, Bool.and_eq_true, Bool.or_eq_true, writesNext, step?, hpc] at h
  simp only [hi, Option.any_some, Option.map_some, Option.all_some] at h
  constructor
  · intro hne
    simpa [hne] using hread
  · intro hw
    rw [hw] at h
    exact h.2.resolve_left Bool.false_ne_true

end Program

/-! ## Statements and their instructions -/

namespace Instruction

variable {ip : Reg} {line : Nat} {i : Instruction} {s : Stmt}

theorem eq_register_of_reads {kind : Opcode.Source} {operand : Word} {e : Expr} {x : Reg}
    (h : source ip line kind operand = .ok e) (hx : e.reads x = true) :
    (kind == .register && Reg.ofOperand? operand == some x) = true := by
  cases kind with
  | register =>
    obtain ⟨k, hk, he⟩ := exists_ok_of_bind h
    have he : (if k = ip then Expr.lit (Int64.ofNat line) else .reg k) = e := Except.ok.inj he
    rw [← he] at hx
    split at hx
    · cases hx
    · rw [Expr.reads, beq_iff_eq] at hx
      rw [register_eq_ok_iff.mp hk, hx]
      simp
  | immediate =>
    cases h
    cases hx
  | ignored =>
    cases h
    cases hx

/-- What an instruction is lifted to: the store of what it computes, or, if it writes the pointer,
a jump, a skip or a `halt`. -/
theorem lift_cases (h : i.lift ip line = .ok s) :
    (∃ dest a b, dest ≠ ip ∧ Reg.ofOperand? i.c = some dest ∧
      source ip line i.opcode.kinds.1 i.a = .ok a ∧ source ip line i.opcode.kinds.2 i.b = .ok b ∧
      s = store dest a b i.opcode) ∨
    Reg.ofOperand? i.c = some ip ∧ ((∃ t, s = .goto t) ∨ s = .halt ∨
      i.opcode = .addr ∧ ∃ a b, Reg.ofOperand? i.a = some a ∧ Reg.ofOperand? i.b = some b ∧
        s = .assign ip (.bin .add (.reg a) (.reg b))) := by
  obtain ⟨dest, hdest, h⟩ := exists_ok_of_bind h
  rw [register_eq_ok_iff] at hdest
  split at h
  · next hip =>
    rw [hip] at hdest
    have jumps {opcode : Opcode} {target? : Option Nat}
        (h : jump line opcode target? = .ok s) : ∃ t, s = .goto t := by
      cases target? with
      | none => cases h
      | some t =>
        cases h
        exact ⟨t, rfl⟩
    refine .inr ⟨hdest, ?_⟩
    obtain ⟨op, a, b, c⟩ := i
    cases op with
    | addi => exact .inl (jumps h)
    | seti => exact .inl (jumps h)
    | addr =>
      simp only [liftPointerWrite] at h
      split at h
      · obtain ⟨ra, hra, h⟩ := exists_ok_of_bind h
        obtain ⟨rb, hrb, h⟩ := exists_ok_of_bind h
        cases h
        rw [register_eq_ok_iff] at hra hrb
        exact .inr (.inr ⟨rfl, ra, rb, hra, hrb, rfl⟩)
      · cases h
    | mulr =>
      cases h
      exact .inr (.inl rfl)
    | _ => cases h
  · next hne =>
    obtain ⟨a, ha, h⟩ := exists_ok_of_bind h
    obtain ⟨b, hb, h⟩ := exists_ok_of_bind h
    cases h
    exact .inl ⟨dest, a, b, hne, hdest, ha, hb, rfl⟩

/-- A lifted statement reads no other registers than its instruction. -/
theorem reads_of_lift (h : i.lift ip line = .ok s) {x : Reg} (hx : s.reads x = true) :
    i.reads x = true := by
  rw [reads, Bool.or_eq_true]
  rcases lift_cases h with ⟨dest, a, b, -, -, ha, hb, rfl⟩ | ⟨-, ⟨t, rfl⟩ | rfl | hskip⟩
  · have hab : a.reads x = true ∨ b.reads x = true := by
      generalize i.opcode = op at hx
      cases op <;>
        simp [store, Stmt.reads, Stmt.updates, Stmt.exprs, Cond.toExpr, Expr.reads] at hx <;>
        simp [hx]
    exact hab.imp (eq_register_of_reads ha) (eq_register_of_reads hb)
  · cases hx
  · cases hx
  · obtain ⟨hop, a, b, ha, hb, rfl⟩ := hskip
    rw [hop, ha, hb]
    have hab : x = a ∨ x = b := by
      simpa [Stmt.reads, Stmt.updates, Stmt.exprs, Expr.reads] using hx
    rcases hab with rfl | rfl <;> simp [Opcode.kinds]

/-- What an instruction writes, its statement stores into. -/
theorem dest?_of_lift (h : i.lift ip line = .ok s) {x : Reg} (hne : x ≠ ip)
    (hx : i.writes x = true) : s.dest? = some x := by
  rw [writes, beq_iff_eq] at hx
  rcases lift_cases h with ⟨dest, a, b, -, hdest, -, -, rfl⟩ | ⟨hdest, -⟩
  · rw [hx] at hdest
    cases hdest
    cases i.opcode <;> rfl
  · rw [hx] at hdest
    exact absurd (Option.some.inj hdest) hne

/-- Skips are lifted from sums into the pointer. -/
theorem skip?_of_lift (h : i.lift ip line = .ok s) {x : Reg} (hne : x ≠ ip)
    (hs : s.IsSkip ip x) : i.skip? ip = some x := by
  rcases lift_cases h with ⟨dest, a, b, hd, -, -, -, rfl⟩ | ⟨hdest, ⟨t, rfl⟩ | rfl | hskip⟩
  · have hw : (store dest a b i.opcode).writesPointer ip = false := writesPointer_store hd i.opcode
    rw [hs.writesPointer] at hw
    cases hw
  · rcases hs with hs | hs <;> cases hs
  · rcases hs with hs | hs <;> cases hs
  · obtain ⟨hop, a, b, ha, hb, rfl⟩ := hskip
    rw [skip?, if_pos ⟨hop, by rw [writes, hdest, beq_self_eq_true]⟩, ha, hb]
    rcases hs with hs | hs
    · cases hs
      exact if_pos rfl
    · cases hs
      exact if_neg fun heq ↦ hne (Option.some.inj heq)

/-- Comparisons are lifted from comparisons. -/
theorem flag?_of_lift {cond : Cond} {x : Reg} (h : i.lift ip line = .ok (.compare cond x)) :
    i.flag? = some x := by
  rcases lift_cases h with
    ⟨dest, a, b, -, hdest, -, -, hs⟩ | ⟨-, ⟨t, hs⟩ | hs | ⟨-, a, b, -, -, hs⟩⟩
  · unfold flag?
    generalize i.opcode = op at hs
    cases op <;> cases hs <;> exact hdest
  · cases hs
  · cases hs
  · cases hs

end Instruction

/-! ## A step of the machine and a step of lifted code -/

namespace Program

variable {p : Program} {code : Code} {q : Registers} {n : Nat} {s : Stmt}

/-- A statement at a line is lifted from the instruction there. -/
theorem lift_of_getElem? (hlift : p.lift = .ok code) (hs : code[n]? = some s) :
    ∃ i, p.instructions[n]? = some i ∧ i.lift p.ip n = .ok s := by
  have hn : n < p.instructions.size := by
    have hlen := (List.getElem?_eq_some_iff.mp hs).1
    rwa [length_of_lift hlift] at hlen
  obtain ⟨s', hs', hlifted⟩ := getElem?_of_lift hlift (Array.getElem?_eq_getElem hn)
  rw [hs] at hs'
  cases hs'
  exact ⟨_, Array.getElem?_eq_getElem hn, hlifted⟩

/-- The instruction that runs next and its statement: both take a step to register files that agree
off the pointer, and the pointer then numbers the line at which the code goes on. Where the code
stops, the machine halts. -/
theorem exists_step (hsize : p.size < 2 ^ 63) (hlift : p.lift = .ok code)
    (hline : (q.get p.ip).line? = some n) (hs : code[n]? = some s) :
    ∃ (m : Fin p.instructions.size) (i : Instruction), m.val = n ∧ p.pc? q = some m ∧
      p.instructions[n]? = some i ∧ i.lift p.ip n = .ok s ∧
      ∃ next? r', Takes (s.execAt p.ip n) q 1 next? r' ∧ (p.execAt m q).AgreeOff p.ip r' ∧
        (∀ next, next? = some next → ((p.execAt m q).get p.ip).line? = some next) ∧
        (next? = none → p.ProductEnds q → p.pc? (p.execAt m q) = none) := by
  obtain ⟨i, hi, hlifted⟩ := lift_of_getElem? hlift hs
  obtain ⟨hlt, hget⟩ := Array.getElem?_eq_some_iff.mp hi
  have hpc := pc?_of_line? hline hlt
  have hsucc : n + 1 < 2 ^ 63 := Nat.lt_of_le_of_lt hlt hsize
  subst hget
  obtain ⟨next?, r', hexec, hagree, hnext⟩ := Instruction.exec_lift
    (p.wellFormed _ (Array.getElem_mem hlt)) hlifted hsucc (Word.eq_ofNat_of_line? hline)
    (.refl p.ip q)
  refine ⟨⟨n, hlt⟩, _, rfl, hpc, hi, hlifted, next?, r', fun k ↦ ?_, hagree.set_left _, ?_, ?_⟩
  · rw [Nat.add_comm]
    exact hexec k
  · intro next hsome
    rcases hnext with hnext | ⟨-, -, hnone⟩
    · rw [← hsome, hnext, execAt, Registers.get_set_self]
      rfl
    · rw [hsome] at hnone
      cases hnone
  · intro hnone hproduct
    rcases hnext with hnext | ⟨hop, hc, -⟩
    · refine pc?_eq_none fun m hm ↦ ?_
      rw [execAt, Registers.get_set_self] at hm
      rw [hnone] at hnext
      cases hnext.trans hm
    · exact hproduct ⟨n, hlt⟩ hpc _ hi ⟨hop, hc⟩

end Program

end Unjump
