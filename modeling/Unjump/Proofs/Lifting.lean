import Mathlib.Algebra.Group.Nat.Defs
import Unjump.Code.Exec
import Unjump.Lift
import Unjump.Machine.Run

/-!
# Lifted code runs as the machine does

Lifting keeps lines, so the machine and the lifted code can be run side by side, one instruction
against one statement. They differ in where they keep their place. The machine has it in the
pointer register, a wrapping word that any instruction may read or write; the code has a line of its
own and knows the pointer only as a literal, as a target, or, for the one statement that skips, as a
register set just before.

## The invariant

Before every step the pointer register of the machine numbers the line at which the code stands,
and all *other* registers agree. The pointer registers of the two may differ, and do: the code
writes its own only at skips. A single step keeps the invariant (`exec_lift`), unless it is a
product into the pointer. Such an instruction is lifted to `halt`, which is right exactly when the
product throws the machine out of the program, so this is asked of the run (`Program.ProductsEnd`)
and only of the instructions that the run gets to.
-/

namespace Unjump

/-- A computation that succeeds succeeds in its first part. -/
theorem exists_ok_of_bind {ε α β : Type} {x : Except ε α} {f : α → Except ε β} {b : β}
    (h : x >>= f = .ok b) : ∃ a, x = .ok a ∧ f a = .ok b := by
  cases x with
  | error e => cases h
  | ok a => exact ⟨a, rfl, h⟩

/-! ## Register files that agree but for one register -/

/-- The two register files hold the same words in every register except possibly `i`. -/
def Registers.AgreeOff (i : Reg) (q r : Registers) : Prop := ∀ j, j ≠ i → q.get j = r.get j

namespace Registers.AgreeOff

variable {i : Reg} {q r : Registers}

theorem refl (i : Reg) (r : Registers) : AgreeOff i r r := fun _ _ ↦ rfl

theorem set_set (h : AgreeOff i q r) (d : Reg) (w : Word) : AgreeOff i (q.set d w) (r.set d w) := by
  intro j hj
  rw [get_set, get_set, h j hj]

theorem set_left (h : AgreeOff i q r) (w : Word) : AgreeOff i (q.set i w) r := by
  intro j hj
  rw [get_set_of_ne q hj.symm, h j hj]

/-- Setting the excepted register to what the other file has there makes the files equal. -/
theorem set_eq (h : AgreeOff i q r) : r.set i (q.get i) = q := by
  refine ext_get fun j ↦ ?_
  rw [get_set]
  split
  · next hij => rw [hij]
  · next hij => exact (h j (Ne.symm hij)).symm

end Registers.AgreeOff

/-! ## Words as lines -/

theorem Word.line?_ofNat {n : Nat} (h : n < 2 ^ 63) : Word.line? (Int64.ofNat n) = some n := by
  have hn : (Int64.ofNat n).toInt = n := Int64.toInt_ofNat_of_lt h
  rw [Word.line?, hn, if_pos (Int.natCast_nonneg n), Int.toNat_natCast]

theorem Word.eq_ofNat_of_line? {w : Word} {n : Nat} (h : w.line? = some n) : w = Int64.ofNat n := by
  unfold Word.line? at h
  split at h
  · next hpos =>
    have hn : w.toInt.toNat = n := Option.some.inj h
    have hlt := w.toInt_lt
    rw [← Int64.toInt_inj, Int64.toInt_ofNat_of_lt (by omega)]
    omega
  · cases h

theorem Word.lt_of_line? {w : Word} {n : Nat} (h : w.line? = some n) : n < 2 ^ 63 := by
  unfold Word.line? at h
  split at h
  · next hpos =>
    have hn : w.toInt.toNat = n := Option.some.inj h
    have hlt := w.toInt_lt
    omega
  · cases h

theorem Word.eq_of_addExact? {v w x : Word} (h : v.addExact? w = some x) : x = v + w := by
  unfold Word.addExact? at h
  split at h
  · exact (Option.some.inj h).symm
  · cases h

/-- The line a lifted jump goes to is the one the machine computes, offset and advance in either
order. -/
theorem Instruction.line?_of_lineAfter? {w offset : Word} {t : Nat}
    (h : Instruction.lineAfter? w offset = some t) : (w + offset + 1).line? = some t := by
  simp only [lineAfter?, Option.bind_eq_bind, Option.bind_eq_some_iff] at h
  obtain ⟨next, hnext, sum, hsum, ht⟩ := h
  have hsum' : sum = w + offset + 1 := by
    rw [Word.eq_of_addExact? hsum, Word.eq_of_addExact? hnext, Int64.add_assoc, Int64.add_assoc,
      Int64.add_comm 1 offset]
  rw [← hsum', ht]

/-! ## One instruction against one statement -/

namespace Instruction

variable {ip : Reg} {line : Nat} {q r : Registers}

theorem register_eq_ok_iff {operand : Word} {d : Reg} :
    register line operand = .ok d ↔ Reg.ofOperand? operand = some d := by
  unfold register
  cases Reg.ofOperand? operand <;> simp

/-- A lifted source has the value that the machine reads. The pointer is read as the line, which
is what it holds. -/
theorem read?_of_source {operand : Word} {e : Expr}
    (h : source ip line .register operand = .ok e) (hq : q.get ip = Int64.ofNat line)
    (hqr : q.AgreeOff ip r) : q.read? operand = some (e.eval r) := by
  obtain ⟨k, hreg, he⟩ := exists_ok_of_bind h
  have he : (if k = ip then Expr.lit (Int64.ofNat line) else .reg k) = e := Except.ok.inj he
  rw [Registers.read?, register_eq_ok_iff.mp hreg, Option.map_some, ← he]
  by_cases hk : k = ip
  · rw [if_pos hk, hk, hq, Expr.eval]
  · rw [if_neg hk, hqr k hk, Expr.eval]

theorem eval_of_source {kind : Opcode.Source} {operand : Word} {e : Expr}
    (h : source ip line kind operand = .ok e) (hkind : kind ≠ .register) :
    e.eval r = operand := by
  cases kind with
  | register => exact absurd rfl hkind
  | immediate => cases h; rfl
  | ignored => cases h; rfl

/-- The statement that stores what an opcode computes does store it. -/
theorem exec_store {op : Opcode} {a b w : Word} {ea eb : Expr} {dest : Reg}
    (ha : source ip line op.kinds.1 a = .ok ea) (hb : source ip line op.kinds.2 b = .ok eb)
    (hq : q.get ip = Int64.ofNat line) (hqr : q.AgreeOff ip r)
    (hw : op.result? q a b = some w) (left : Nat) :
    (store dest ea eb op).exec ip r (left + 1) = .done .next (r.set dest w) left := by
  have readA : op.kinds.1 = .register → q.read? a = some (ea.eval r) := fun hk ↦
    read?_of_source (hk ▸ ha) hq hqr
  have readB : op.kinds.2 = .register → q.read? b = some (eb.eval r) := fun hk ↦
    read?_of_source (hk ▸ hb) hq hqr
  have immA : op.kinds.1 ≠ .register → ea.eval r = a := eval_of_source ha
  have immB : op.kinds.2 ≠ .register → eb.eval r = b := eval_of_source hb
  cases op <;> simp only [Opcode.kinds, forall_const, ne_eq, reduceCtorEq, not_false_eq_true,
    not_true_eq_false, false_implies] at readA readB immA immB <;>
    simp_all [Opcode.result?, store, Stmt.exec, Cond.eval, Cond.toExpr, Expr.eval, BinOp.apply]

theorem writesPointer_store {ea eb : Expr} {dest : Reg} (h : dest ≠ ip) (op : Opcode) :
    (store dest ea eb op).writesPointer ip = false := by
  cases op <;> simp [store, Stmt.writesPointer, h]

theorem exec_eq_set {i : Instruction} (hi : i.WellFormed) {dest : Reg} {w : Word}
    (hdest : Reg.ofOperand? i.c = some dest) (hw : i.opcode.result? q i.a i.b = some w) :
    i.exec hi q = q.set dest w := by
  have h := exec?_eq_some_exec hi q
  rw [exec?, hw, hdest] at h
  exact (Option.some.inj h).symm

/-- Where the code goes on is where the machine does, or the instruction is a product into the
pointer and the code stops. -/
def NextAgrees (i : Instruction) (ip : Reg) (q : Registers) (next? : Option Nat) : Prop :=
  next? = (q.get ip + 1).line? ∨
    i.opcode = .mulr ∧ Reg.ofOperand? i.c = some ip ∧ next? = none

/-- A lifted write to the pointer goes where the machine goes. -/
theorem exec_liftPointerWrite {i : Instruction} (hi : i.WellFormed) {s : Stmt}
    (hs : i.liftPointerWrite ip line = .ok s) (hc : Reg.ofOperand? i.c = some ip)
    (hq : q.get ip = Int64.ofNat line) (hqr : q.AgreeOff ip r) :
    ∃ next? r', (∀ left, s.execAt ip line r (left + 1) = .done next? r' left) ∧
      (i.exec hi q).AgreeOff ip r' ∧ i.NextAgrees ip (i.exec hi q) next? := by
  obtain ⟨op, a, b, c⟩ := i
  obtain ⟨w, hw⟩ := Option.isSome_iff_exists.mp
    (isSome_result? (wellFormed_iff.mp hi).1 (wellFormed_iff.mp hi).2.1 q)
  rw [exec_eq_set hi hc hw]
  have hget : (q.set ip w).get ip = w := Registers.get_set_self q ip w
  have agree : (q.set ip w).AgreeOff ip r := hqr.set_left w
  -- the machine's pointer when it reads an operand that names the pointer
  have readIp {o : Word} (ho : (Reg.ofOperand? o == some ip) = true) :
      q.read? o = some (Int64.ofNat line) := by
    rw [Registers.read?, eq_of_beq ho, Option.map_some, hq]
  cases op with
  | addi =>
    simp only [liftPointerWrite] at hs
    by_cases ha : (Reg.ofOperand? a == some ip) = true
    · rw [if_pos ha] at hs
      cases ht : lineAfter? (Int64.ofNat line) b with
      | none => rw [ht] at hs; cases hs
      | some t =>
        rw [ht] at hs
        cases hs
        have hw' : w = Int64.ofNat line + b := by
          simpa [Opcode.result?, readIp ha] using hw.symm
        refine ⟨some t, r, fun left ↦ rfl, agree, .inl ?_⟩
        rw [hget, hw', line?_of_lineAfter? ht]
    · rw [if_neg ha] at hs
      cases hs
  | seti =>
    simp only [liftPointerWrite] at hs
    cases ht : lineAfter? a 0 with
    | none => rw [ht] at hs; cases hs
    | some t =>
      rw [ht] at hs
      cases hs
      have hw' : w = a := (Option.some.inj hw).symm
      refine ⟨some t, r, fun left ↦ rfl, agree, .inl ?_⟩
      have h := line?_of_lineAfter? ht
      rw [Int64.add_zero] at h
      rw [hget, hw', h]
  | addr =>
    simp only [liftPointerWrite] at hs
    split at hs
    · obtain ⟨ka, hra, hs⟩ := exists_ok_of_bind hs
      obtain ⟨kb, hrb, hs⟩ := exists_ok_of_bind hs
      have hs' : Stmt.assign ip (.bin .add (.reg ka) (.reg kb)) = s := Except.ok.inj hs
      -- with the line in the pointer register the code reads what the machine reads
      have hset : r.set ip (Int64.ofNat line) = q := by rw [← hq, hqr.set_eq]
      have hw' : w = q.get ka + q.get kb := by
        simpa [Opcode.result?, Registers.read?, register_eq_ok_iff.mp hra,
          register_eq_ok_iff.mp hrb] using hw.symm
      refine ⟨(w + 1).line?, q.set ip w, fun left ↦ ?_, .refl _ _, .inl (by rw [hget])⟩
      rw [← hs', Stmt.execAt, Stmt.writesPointer, if_pos (beq_self_eq_true ip), hset]
      simp [Stmt.exec, Outcome.bind, Expr.eval, BinOp.apply, hw']
    · cases hs
  | mulr =>
    cases hs
    exact ⟨none, r, fun left ↦ rfl, agree, .inr ⟨rfl, hc, rfl⟩⟩
  | _ => cases hs

/-- **One instruction does what its statement does.** From register files that agree off the
pointer, with the machine's pointer at the line, both take one step and agree again. -/
theorem exec_lift {i : Instruction} (hi : i.WellFormed) {s : Stmt} (hs : i.lift ip line = .ok s)
    (hline : line + 1 < 2 ^ 63) (hq : q.get ip = Int64.ofNat line) (hqr : q.AgreeOff ip r) :
    ∃ next? r', (∀ left, s.execAt ip line r (left + 1) = .done next? r' left) ∧
      (i.exec hi q).AgreeOff ip r' ∧ i.NextAgrees ip (i.exec hi q) next? := by
  obtain ⟨dest, hreg, hs⟩ := exists_ok_of_bind hs
  have hc := register_eq_ok_iff.mp hreg
  by_cases hd : dest = ip
  · rw [hd] at hc
    rw [if_pos hd] at hs
    exact exec_liftPointerWrite hi hs hc hq hqr
  · rw [if_neg hd] at hs
    obtain ⟨ea, ha, hs⟩ := exists_ok_of_bind hs
    obtain ⟨eb, hb, hs⟩ := exists_ok_of_bind hs
    have hs' : store dest ea eb i.opcode = s := Except.ok.inj hs
    obtain ⟨w, hw⟩ := Option.isSome_iff_exists.mp
      (isSome_result? (wellFormed_iff.mp hi).1 (wellFormed_iff.mp hi).2.1 q)
    rw [exec_eq_set hi hc hw]
    refine ⟨some (line + 1), r.set dest w, fun left ↦ ?_, hqr.set_set dest w, .inl ?_⟩
    · rw [← hs', Stmt.execAt, writesPointer_store hd, if_neg Bool.false_ne_true,
        exec_store ha hb hq hqr hw]
      rfl
    · rw [Registers.get_set_of_ne q hd, hq]
      exact (Word.line?_ofNat hline).symm.trans (by rw [Int64.ofNat_add]; rfl)

end Instruction

/-! ## The lines of lifted code -/

theorem getElem?_of_mapM_eq_ok {ε α β : Type} {f : α → Except ε β} {xs : List α} {ys : List β}
    (h : xs.mapM f = .ok ys) :
    ys.length = xs.length ∧
      ∀ (n : Nat) (x : α), xs[n]? = some x → ∃ y, ys[n]? = some y ∧ f x = .ok y := by
  induction xs generalizing ys with
  | nil =>
    rw [List.mapM_nil] at h
    cases h
    exact ⟨rfl, fun n x hx ↦ by cases hx⟩
  | cons x xs ih =>
    rw [List.mapM_cons] at h
    obtain ⟨y, hy, h⟩ := exists_ok_of_bind h
    obtain ⟨zs, hzs, h⟩ := exists_ok_of_bind h
    cases h
    obtain ⟨hlen, hget⟩ := ih hzs
    refine ⟨by rw [List.length_cons, List.length_cons, hlen], fun n z hz ↦ ?_⟩
    cases n with
    | zero =>
      cases hz
      exact ⟨y, rfl, hy⟩
    | succ n => exact hget n z hz

namespace Program

variable {p : Program} {code : Code}

theorem length_of_lift (h : p.lift = .ok code) : code.length = p.size := by
  rw [(getElem?_of_mapM_eq_ok h).1, List.length_zipIdx, Array.length_toList, size]

/-- Every instruction has its statement at its own line. -/
theorem getElem?_of_lift (h : p.lift = .ok code) {line : Nat} {i : Instruction}
    (hi : p.instructions[line]? = some i) :
    ∃ s, code[line]? = some s ∧ i.lift p.ip line = .ok s := by
  refine (getElem?_of_mapM_eq_ok h).2 line (i, line) ?_
  simp [hi]

/-! ## Whole runs -/

/-- The register file after `k` steps, if the machine takes as many. -/
def after (p : Program) : Nat → Registers → Option Registers
  | 0, q => some q
  | k + 1, q => (p.step? q).bind (p.after k)

/-- If the instruction that runs next is a product into the pointer, it throws the pointer out of
the program. -/
def ProductEnds (p : Program) (q : Registers) : Prop :=
  ∀ n ∈ p.pc? q, ∀ i ∈ p.instructions[n.val]?,
    i.opcode = .mulr ∧ Reg.ofOperand? i.c = some p.ip → p.pc? (p.execAt n q) = none

/-- Every product into the pointer that runs within the budget throws the pointer out of the
program. -/
def ProductsEnd (p : Program) (budget : Nat) (q : Registers) : Prop :=
  ∀ k < budget, ∀ q' ∈ p.after k q, p.ProductEnds q'

instance (p : Program) (q : Registers) : Decidable (p.ProductEnds q) :=
  Option.decidableForallMem (p.pc? q)

instance (p : Program) (budget : Nat) (q : Registers) : Decidable (p.ProductsEnd budget q) :=
  inferInstanceAs (Decidable (∀ k < budget, ∀ q' ∈ p.after k q, p.ProductEnds q'))

theorem ProductsEnd.of_step? {q q' : Registers} {n : Nat} (h : p.ProductsEnd (n + 1) q)
    (hs : p.step? q = some q') : p.ProductsEnd n q' := by
  intro k hk q'' hq''
  refine h (k + 1) (by omega) q'' ?_
  rw [after, hs, Option.bind_some]
  exact hq''

theorem pc?_of_line? {q : Registers} {n : Nat} (h : (q.get p.ip).line? = some n)
    (hn : n < p.instructions.size) : p.pc? q = some ⟨n, hn⟩ := by
  rw [pc?, h]
  exact dif_pos hn

theorem pc?_eq_none {q : Registers} (h : ∀ n, (q.get p.ip).line? = some n → p.size ≤ n) :
    p.pc? q = none := by
  unfold pc?
  cases hl : (q.get p.ip).line? with
  | none => rfl
  | some n => exact dif_neg (Nat.not_lt.mpr (h n hl))

theorem step?_of_pc?_eq_none {q : Registers} (h : p.pc? q = none) : p.step? q = none := by
  rw [step?, h, Option.map_none]

/-- A run of the machine and a run of code that came to the same end, off the pointer. -/
inductive SameEnd (ip : Reg) : Option (Registers × Nat) → Outcome Unit → Prop
  /-- Both halted and have as much of their budgets left. -/
  | done {q r : Registers} {left : Nat} (h : q.AgreeOff ip r) :
    SameEnd ip (some (q, left)) (.done () r left)
  /-- Both used up their budgets. -/
  | exhausted : SameEnd ip none .exhausted

theorem sameEnd_of_size_le (hlift : p.lift = .ok code) {q r : Registers} {line : Nat}
    (hline : (q.get p.ip).line? = some line) (hle : p.size ≤ line) (hqr : q.AgreeOff p.ip r)
    (budget : Nat) :
    SameEnd p.ip (p.runWithin budget q)
      (runFrom p.ip (fun l ↦ code[l]?) budget line r budget) := by
  have hpc : p.pc? q = none := pc?_eq_none fun n hn ↦ by
    rw [hline] at hn
    cases hn
    exact hle
  have hcode : code[line]? = none := by
    rw [List.getElem?_eq_none_iff, length_of_lift hlift]
    exact hle
  rw [runFrom, runWithin_of_none (step?_of_pc?_eq_none hpc), hcode]
  exact .done hqr

/-- **The run of a program and the run of its lifted code end alike**, from any state in which the
machine's pointer is at the code's line. The induction is on the budget, one step at a time. -/
theorem sameEnd_runFrom_lift (hsize : p.size < 2 ^ 63) (hlift : p.lift = .ok code) {q r : Registers}
    {line budget : Nat} (hline : (q.get p.ip).line? = some line) (hqr : q.AgreeOff p.ip r)
    (hmul : p.ProductsEnd budget q) :
    SameEnd p.ip (p.runWithin budget q)
      (runFrom p.ip (fun l ↦ code[l]?) budget line r budget) := by
  induction budget generalizing q r line with
  | zero =>
    by_cases hlt : line < p.size
    · obtain ⟨s, hs, -⟩ := getElem?_of_lift hlift (Array.getElem?_eq_getElem hlt)
      have hstep : p.step? q = some (p.execAt ⟨line, hlt⟩ q) := by
        rw [step?, pc?_of_line? hline hlt, Option.map_some]
      rw [runFrom, runWithin_zero_of_some hstep, hs]
      exact .exhausted
    · exact sameEnd_of_size_le hlift hline (Nat.not_lt.mp hlt) hqr 0
  | succ n ih =>
    by_cases hlt : line < p.size
    · have hi := Array.getElem?_eq_getElem hlt
      obtain ⟨s, hs, hlifted⟩ := getElem?_of_lift hlift hi
      have hpc := pc?_of_line? hline hlt
      have hstep : p.step? q = some (p.execAt ⟨line, hlt⟩ q) := by
        rw [step?, hpc, Option.map_some]
      have hsucc : line + 1 < 2 ^ 63 := by omega
      obtain ⟨next?, r', hexec, hagree, hnext⟩ := Instruction.exec_lift
        (p.wellFormed _ (Array.getElem_mem hlt)) hlifted hsucc (Word.eq_ofNat_of_line? hline) hqr
      have hagree' : (p.execAt ⟨line, hlt⟩ q).AgreeOff p.ip r' := hagree.set_left _
      rw [runFrom, runWithin_of_some hstep, hs]
      simp only [hexec, Outcome.bind]
      rcases hnext with hnext | ⟨hop, hc, rfl⟩
      · have hptr : next? = ((p.execAt ⟨line, hlt⟩ q).get p.ip).line? := by
          rw [hnext, execAt, Registers.get_set_self]
          rfl
        cases hl : ((p.execAt ⟨line, hlt⟩ q).get p.ip).line? with
        | none =>
          have hpc' : p.pc? (p.execAt ⟨line, hlt⟩ q) = none := pc?_eq_none fun n hn ↦ by
            rw [hl] at hn
            cases hn
          rw [hptr, hl, runWithin_of_none (step?_of_pc?_eq_none hpc')]
          exact .done hagree'
        | some line' =>
          rw [hptr, hl]
          exact ih hl hagree' (hmul.of_step? hstep)
      -- a product in the pointer, where the code stops: the machine is thrown out by it
      · have hpc' := hmul 0 (Nat.succ_pos n) q rfl ⟨line, hlt⟩ hpc _ hi ⟨hop, hc⟩
        rw [runWithin_of_none (step?_of_pc?_eq_none hpc')]
        exact .done hagree'
    · exact sameEnd_of_size_le hlift hline (Nat.not_lt.mp hlt) hqr (n + 1)

theorem sameEnd_runWithin_lift (hsize : p.size < 2 ^ 63) (hlift : p.lift = .ok code)
    {r : Registers} (hr : r.get p.ip = 0) {budget : Nat} (hmul : p.ProductsEnd budget r) :
    SameEnd p.ip (p.runWithin budget r) (Code.runWithin p.ip code budget r) := by
  rw [Code.runWithin_eq]
  exact sameEnd_runFrom_lift hsize hlift (by rw [hr]; rfl) (.refl p.ip r) hmul

/-- **Lifted code simulates the machine.** Under every step limit the two runs report the same
exhausted limit, or both halt after as many steps with registers that agree off the pointer.
Without a limit, either no budget suffices for either, or some budget suffices for both. -/
theorem run_lift (hsize : p.size ≤ 2 ^ 63 - 1) (hlift : p.lift = .ok code) {r : Registers}
    (hr : r.get p.ip = 0) :
    (∀ limit : StepLimit, p.ProductsEnd limit.budget r →
      (p.run limit r = .error (.limitExceeded limit.budget) ∧
        Code.run p.ip code limit r = .error (.limitExceeded limit.budget)) ∨
      ∃ e e', p.run limit r = .ok e ∧ Code.run p.ip code limit r = .ok e' ∧
        e'.steps = e.steps ∧ e.registers.AgreeOff p.ip e'.registers) ∧
    ((∀ budget, p.ProductsEnd budget r) →
      (∀ budget, p.runWithin budget r = none ∧
        Code.runWithin p.ip code budget r = .exhausted) ∨
      ∃ budget q r' left, p.runWithin budget r = some (q, left) ∧
        Code.runWithin p.ip code budget r = .done () r' left ∧ q.AgreeOff p.ip r') := by
  have hsize' : p.size < 2 ^ 63 := by omega
  refine ⟨fun limit hmul ↦ ?_, fun hmul ↦ ?_⟩
  · have h := sameEnd_runWithin_lift hsize' hlift hr hmul
    unfold run Code.run
    generalize p.runWithin limit.budget r = machine at h
    generalize Code.runWithin p.ip code limit.budget r = lifted at h
    cases h with
    | done h => exact .inr ⟨_, _, rfl, rfl, rfl, h⟩
    | exhausted => exact .inl ⟨rfl, rfl⟩
  · by_cases hnone : ∀ budget, p.runWithin budget r = none
    · refine .inl fun budget ↦ ⟨hnone budget, ?_⟩
      have h := sameEnd_runWithin_lift hsize' hlift hr (hmul budget)
      rw [hnone budget] at h
      generalize Code.runWithin p.ip code budget r = lifted at h
      cases h
      rfl
    · obtain ⟨budget, hne⟩ := Classical.not_forall.mp hnone
      have h := sameEnd_runWithin_lift hsize' hlift hr (hmul budget)
      generalize hm : p.runWithin budget r = machine at h hne
      generalize hc : Code.runWithin p.ip code budget r = lifted at h
      cases h with
      | done h => exact .inr ⟨budget, _, _, _, hm, hc, h⟩
      | exhausted => exact absurd rfl hne

/-- Reads its pointer, squares what it got into the pointer, and is thrown out by that. -/
def squareOut : Program :=
  ⟨3, #[⟨.addi, 3, 7, 0⟩, ⟨.mulr, 0, 0, 3⟩], by decide⟩

theorem run_lift_squareOut :
    let code : Code := [.assign 0 (.bin .add (.lit 0) (.lit 7)), .halt]
    let r : Registers := ⟨#v[0, 0, 0, 0, 0, 0]⟩
    ∃ e e', squareOut.run (some 2) r = .ok e ∧ Code.run 3 code (some 2) r = .ok e' ∧
      e'.steps = e.steps ∧ e.registers.AgreeOff 3 e'.registers := by
  have hmul : squareOut.ProductsEnd 2 ⟨#v[0, 0, 0, 0, 0, 0]⟩ := by decide
  rcases (run_lift (p := squareOut) (by decide) rfl (by decide)).1 (some 2) hmul with h | h
  · cases h.1
  · exact h

end Program

end Unjump
