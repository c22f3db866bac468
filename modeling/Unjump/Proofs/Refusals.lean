import Mathlib.Algebra.Group.Int.Defs
import Mathlib.Data.Nat.Find
import Unjump.Decompile
import Unjump.Proofs.Grammar
import Unjump.Proofs.Lifting

/-!
# What cannot be decompiled

Lifting is the only stage that can fail, and a write to the pointer is the only thing it fails on.
Every instruction of a program is well formed, so the check of registers that lifting makes once
more always passes, and what is left are the writes to the pointer that are in none of the four
forms. `Instruction.Understood` lists the forms in terms of the operands as integers. A jump has to
go to a line, and to compute that line must not leave the range of words.

Programs have fewer than `2 ^ 63` instructions here, so that every line is a word.
-/

namespace Unjump

/-! ## Lines as sums -/

theorem Word.addExact?_eq_some_iff {v w x : Word} :
    v.addExact? w = some x ↔ x.toInt = v.toInt + w.toInt := by
  unfold Word.addExact?
  constructor
  · intro h
    split at h
    · next heq => rw [← Option.some.inj h, heq]
    · contradiction
  · intro h
    have hsum : (v + w).toInt = v.toInt + w.toInt := by
      rw [Int64.toInt_add, ← h]
      exact Int.bmod_eq_of_le (by have := x.le_toInt; omega) (by have := x.toInt_lt; omega)
    rw [if_pos hsum, Option.some.injEq, ← Int64.toInt_inj, hsum, h]

/-- A sum that is in the range of words is exact. -/
theorem Word.exists_addExact? {v w : Word} (hle : -2 ^ 63 ≤ v.toInt + w.toInt)
    (hlt : v.toInt + w.toInt < 2 ^ 63) :
    ∃ x : Word, v.addExact? w = some x ∧ x.toInt = v.toInt + w.toInt := by
  have hx : (Int64.ofInt (v.toInt + w.toInt)).toInt = v.toInt + w.toInt :=
    Int64.toInt_ofInt_of_le hle hlt
  exact ⟨_, Word.addExact?_eq_some_iff.mpr hx, hx⟩

namespace Instruction

variable {ip : Reg} {line : Nat} {i : Instruction}

/-- **There is a line to jump to exactly if the sums stay words and the last one is not
negative.** -/
theorem isSome_lineAfter?_iff {w offset : Word} :
    (lineAfter? w offset).isSome ↔
      w.toInt + 1 < 2 ^ 63 ∧ 0 ≤ w.toInt + 1 + offset.toInt ∧
        w.toInt + 1 + offset.toInt < 2 ^ 63 := by
  have hone : (1 : Word).toInt = 1 := rfl
  have hw := w.le_toInt
  simp only [lineAfter?, Option.isSome_iff_exists, Option.bind_eq_bind, Option.bind_eq_some_iff,
    Word.addExact?_eq_some_iff]
  constructor
  · rintro ⟨t, next, hnext, sum, hsum, ht⟩
    unfold Word.line? at ht
    split at ht
    · next hpos =>
      have hlt := next.toInt_lt
      have hlt' := sum.toInt_lt
      omega
    · contradiction
  · rintro ⟨hnext, hpos, hlt⟩
    obtain ⟨next, -, hn⟩ := Word.exists_addExact? (v := w) (w := 1) (by omega) (by omega)
    obtain ⟨sum, -, hs⟩ := Word.exists_addExact? (v := next) (w := offset) (by omega) (by omega)
    exact ⟨sum.toInt.toNat, next, hn, sum, hs, by rw [Word.line?, if_pos (by omega)]⟩

/-! ## Refused instructions -/

/-- The forms of a write to the pointer that code has a counterpart for. -/
def Understood (ip : Reg) (line : Nat) (i : Instruction) : Prop :=
  i.opcode = .mulr ∨
    (i.opcode = .addi ∧ i.a.toInt = ip.val ∧ 0 ≤ line + 1 + i.b.toInt ∧
      line + 1 + i.b.toInt < 2 ^ 63) ∨
    (i.opcode = .seti ∧ 0 ≤ i.a.toInt + 1 ∧ i.a.toInt + 1 < 2 ^ 63) ∨
    (i.opcode = .addr ∧ ¬(i.a.toInt = ip.val ↔ i.b.toInt = ip.val))

instance (ip : Reg) (line : Nat) (i : Instruction) : Decidable (i.Understood ip line) :=
  inferInstanceAs (Decidable (_ ∨ _ ∨ _ ∨ _))

/-- The instruction writes the pointer in another form. -/
def Refused (ip : Reg) (line : Nat) (i : Instruction) : Prop :=
  i.c.toInt = ip.val ∧ ¬i.Understood ip line

instance (ip : Reg) (line : Nat) (i : Instruction) : Decidable (i.Refused ip line) :=
  inferInstanceAs (Decidable (_ ∧ ¬_))

theorem isPointer_iff {operand : Word} :
    (Reg.ofOperand? operand == some ip) = true ↔ operand.toInt = ip.val := by
  rw [beq_iff_eq, Reg.ofOperand?_eq_some_iff]

/-- A jump is lifted if there is a line to go to, and else blamed on its opcode. -/
theorem jump_cases {target? : Option Nat} {P : Prop} (h : target?.isSome ↔ P) (line : Nat)
    (opcode : Opcode) :
    (P ∧ ∃ s, jump line opcode target? = .ok s) ∨
      (¬P ∧ jump line opcode target? = .error (.unsupportedJump line opcode)) := by
  rcases target? with _ | t
  · exact .inr ⟨fun hP ↦ Bool.false_ne_true (h.mpr hP), rfl⟩
  · exact .inl ⟨h.mp rfl, _, rfl⟩

theorem isSome_addiTarget_iff {a b c : Word} (hline : line + 1 < 2 ^ 63) :
    (if (Reg.ofOperand? a == some ip) = true then lineAfter? (Int64.ofNat line) b
      else none).isSome ↔ Understood ip line ⟨.addi, a, b, c⟩ := by
  have hword : (Int64.ofNat line).toInt = line := Int64.toInt_ofNat_of_lt (by omega)
  have hnext : (line : Int) + 1 < 2 ^ 63 := by omega
  by_cases ha : a.toInt = ip.val
  · rw [if_pos (isPointer_iff.mpr ha), isSome_lineAfter?_iff, hword]
    simp only [Understood, ha, reduceCtorEq, false_and, true_and, false_or, or_false]
    exact ⟨fun h ↦ h.2, fun h ↦ ⟨hnext, h⟩⟩
  · rw [if_neg (mt isPointer_iff.mp ha)]
    simp [Understood, ha]

theorem isSome_setiTarget_iff {a b c : Word} :
    (lineAfter? a 0).isSome ↔ Understood ip line ⟨.seti, a, b, c⟩ := by
  rw [isSome_lineAfter?_iff, Int64.toInt_zero, Int.add_zero]
  simp only [Understood, reduceCtorEq, false_and, true_and, false_or, or_false]
  exact ⟨fun h ↦ h.2, fun h ↦ ⟨h.2, h⟩⟩

/-- A write to the pointer is lifted if it is understood, and else blamed on its opcode. -/
theorem liftPointerWrite_cases (hi : i.WellFormed) (hline : line + 1 < 2 ^ 63) :
    (i.Understood ip line ∧ ∃ s, i.liftPointerWrite ip line = .ok s) ∨
      (¬i.Understood ip line ∧
        i.liftPointerWrite ip line = .error (.unsupportedJump line i.opcode)) := by
  obtain ⟨op, a, b, c⟩ := i
  cases op with
  | addi => exact jump_cases (isSome_addiTarget_iff hline) line .addi
  | seti => exact jump_cases isSome_setiTarget_iff line .seti
  | mulr => exact .inl ⟨.inl rfl, _, rfl⟩
  | addr =>
    obtain ⟨ha, hb, -⟩ := wellFormed_iff.mp hi
    obtain ⟨ra, hra⟩ := Option.isSome_iff_exists.mp (ha rfl)
    obtain ⟨rb, hrb⟩ := Option.isSome_iff_exists.mp (hb rfl)
    have hone : ((Reg.ofOperand? a == some ip) != (Reg.ofOperand? b == some ip)) = true ↔
        Understood ip line ⟨.addr, a, b, c⟩ := by
      rw [bne_iff_ne, ne_eq, Bool.eq_iff_iff, isPointer_iff, isPointer_iff]
      simp [Understood]
    by_cases h : Understood ip line ⟨.addr, a, b, c⟩
    · refine .inl ⟨h, .assign ip (.bin .add (.reg ra) (.reg rb)), ?_⟩
      simp only [liftPointerWrite]
      rw [if_pos (hone.mpr h), register_eq_ok_iff.mpr hra, register_eq_ok_iff.mpr hrb]
      rfl
    · refine .inr ⟨h, ?_⟩
      simp only [liftPointerWrite]
      rw [if_neg (mt hone.mp h)]
  | _ => exact .inr ⟨by simp [Understood], rfl⟩

/-- A source of a well-formed instruction is always lifted. -/
theorem exists_source {kind : Opcode.Source} {operand : Word}
    (h : kind = .register → (Reg.ofOperand? operand).isSome) :
    ∃ e, source ip line kind operand = .ok e := by
  rcases kind with _ | _ | _
  · obtain ⟨r, hr⟩ := Option.isSome_iff_exists.mp (h rfl)
    rw [source, register_eq_ok_iff.mpr hr]
    exact ⟨_, rfl⟩
  · exact ⟨_, rfl⟩
  · exact ⟨_, rfl⟩

/-- **An instruction is lifted unless it is refused.** The blame is never for a register. -/
theorem lift_cases_refused (hi : i.WellFormed) (hline : line + 1 < 2 ^ 63) :
    (¬i.Refused ip line ∧ ∃ s, i.lift ip line = .ok s) ∨
      (i.Refused ip line ∧ i.lift ip line = .error (.unsupportedJump line i.opcode)) := by
  obtain ⟨ha, hb, hc⟩ := wellFormed_iff.mp hi
  obtain ⟨dest, hdest⟩ := Option.isSome_iff_exists.mp hc
  have hcval := Reg.ofOperand?_eq_some_iff.mp hdest
  have hlift : i.lift ip line =
      if dest = ip then i.liftPointerWrite ip line
      else source ip line i.opcode.kinds.1 i.a >>= fun a ↦
        source ip line i.opcode.kinds.2 i.b >>= fun b ↦ pure (store dest a b i.opcode) := by
    rw [lift, register_eq_ok_iff.mpr hdest]
    rfl
  rw [hlift]
  by_cases hd : dest = ip
  · rw [if_pos hd]
    rw [hd] at hcval
    rcases @liftPointerWrite_cases ip line i hi hline with ⟨h, hs⟩ | ⟨h, he⟩
    · exact .inl ⟨fun hr ↦ hr.2 h, hs⟩
    · exact .inr ⟨⟨hcval, h⟩, he⟩
  · obtain ⟨a, hsa⟩ := @exists_source ip line _ _ ha
    obtain ⟨b, hsb⟩ := @exists_source ip line _ _ hb
    rw [if_neg hd, hsa, hsb]
    refine .inl ⟨fun hr ↦ hd (Fin.ext ?_), _, rfl⟩
    exact Int.ofNat_inj.mp (hcval.symm.trans hr.1)

end Instruction

/-! ## Programs -/

theorem exists_mapM_eq_ok {ε α β : Type} {f : α → Except ε β} {xs : List α}
    (h : ∀ x ∈ xs, ∃ b, f x = .ok b) : ∃ ys, xs.mapM f = .ok ys := by
  induction xs with
  | nil => exact ⟨[], rfl⟩
  | cons x xs ih =>
    obtain ⟨⟨b, hb⟩, hxs⟩ := List.forall_mem_cons.mp h
    obtain ⟨ys, hys⟩ := ih hxs
    rw [List.mapM_cons, hb, hys]
    exact ⟨b :: ys, rfl⟩

namespace Program

variable {p : Program}

/-- The instruction at a line writes the pointer in a form that is not understood. -/
def Refuses (p : Program) (line : Nat) (i : Instruction) : Prop :=
  p.instructions[line]? = some i ∧ i.Refused p.ip line

/-- It is the first such instruction. -/
def RefusesFirst (p : Program) (line : Nat) (i : Instruction) : Prop :=
  p.Refuses line i ∧ ∀ k < line, ∀ j, ¬p.Refuses k j

theorem exists_refusesFirst (h : ∃ line i, p.Refuses line i) : ∃ line i, p.RefusesFirst line i := by
  classical
  obtain ⟨i, hi⟩ := Nat.find_spec h
  exact ⟨Nat.find h, i, hi, fun k hk j hj ↦ Nat.find_min h hk ⟨j, hj⟩⟩

/-- An instruction that is not refused is lifted, whatever stands around it. -/
theorem lift_of_not_refuses (hsize : p.size < 2 ^ 63) {line : Nat} {i : Instruction}
    (hi : p.instructions[line]? = some i) (h : ¬p.Refuses line i) :
    ∃ s, i.lift p.ip line = .ok s := by
  have hlt : line < p.size := (Array.getElem?_eq_some_iff.mp hi).1
  have hwf := p.wellFormed i (Array.mem_of_getElem? hi)
  rcases Instruction.lift_cases_refused hwf (show line + 1 < 2 ^ 63 by omega) with ⟨-, hs⟩ | ⟨hr, -⟩
  · exact hs
  · exact absurd ⟨hi, hr⟩ h

theorem lift_eq_error (hsize : p.size < 2 ^ 63) {line : Nat} {i : Instruction}
    (h : p.RefusesFirst line i) : p.lift = .error (.unsupportedJump line i.opcode) := by
  obtain ⟨⟨hi, hrefused⟩, hfirst⟩ := h
  have hlt : line < p.size := (Array.getElem?_eq_some_iff.mp hi).1
  have hwf := p.wellFormed i (Array.mem_of_getElem? hi)
  have hline : (p.instructions.toList.zipIdx)[line]? = some (i, line) := by simp [hi]
  have hsplit : p.instructions.toList.zipIdx.take line ++
      (i, line) :: p.instructions.toList.zipIdx.drop (line + 1) =
        p.instructions.toList.zipIdx := by
    obtain ⟨hlen, hget⟩ := List.getElem?_eq_some_iff.mp hline
    rw [← hget, List.getElem_cons_drop, List.take_append_drop]
  have hbefore : ∀ y ∈ p.instructions.toList.zipIdx.take line, ∃ s, y.1.lift p.ip y.2 = .ok s := by
    rintro ⟨j, k⟩ hj
    obtain ⟨n, hn⟩ := List.mem_iff_getElem?.mp hj
    rw [List.getElem?_take] at hn
    split at hn
    · next hlt' =>
      obtain ⟨hj', rfl⟩ : p.instructions[n]? = some j ∧ n = k := by simpa using hn
      exact lift_of_not_refuses hsize hj' (hfirst n hlt' j)
    · simp at hn
  have hat : i.lift p.ip line = .error (.unsupportedJump line i.opcode) := by
    rcases @Instruction.lift_cases_refused p.ip line i hwf (by omega) with ⟨hr, -⟩ | ⟨-, he⟩
    · exact absurd hrefused hr
    · exact he
  rw [Program.lift, ← hsplit]
  exact Listing.mapM_eq_error (x := (i, line)) hbefore hat _

theorem exists_lift (hsize : p.size < 2 ^ 63) (h : ∀ line i, ¬p.Refuses line i) :
    ∃ code, p.lift = .ok code := by
  refine exists_mapM_eq_ok fun ⟨i, line⟩ hi ↦ ?_
  have hi' : p.instructions[line]? = some i := by
    simpa using List.mk_mem_zipIdx_iff_getElem?.mp hi
  exact lift_of_not_refuses hsize hi' (h line i)

/-- **Lifting fails on the first instruction that is refused, and on nothing else.** -/
theorem lift_eq_error_iff (hsize : p.size < 2 ^ 63) {e : Error} :
    p.lift = .error e ↔ ∃ line i, p.RefusesFirst line i ∧ e = .unsupportedJump line i.opcode := by
  constructor
  · intro he
    by_cases h : ∃ line i, p.Refuses line i
    · obtain ⟨line, i, hfirst⟩ := exists_refusesFirst h
      rw [lift_eq_error hsize hfirst, Except.error.injEq] at he
      exact ⟨line, i, hfirst, he.symm⟩
    · obtain ⟨code, hcode⟩ := exists_lift hsize fun line i hr ↦ h ⟨line, i, hr⟩
      rw [hcode] at he
      contradiction
  · rintro ⟨line, i, hfirst, rfl⟩
    exact lift_eq_error hsize hfirst

theorem decompile_eq_error_iff {o : Options} {e : Error} :
    p.decompile o = .error e ↔ p.lift = .error e := by
  unfold decompile
  rcases p.lift with e' | code <;> simp [Except.map]

/-- **Decompiling fails exactly on writes to the pointer that are not understood**, whatever the
options, and blames the first. When lifting succeeds, so does the rest. -/
theorem decompile_refusal (hsize : p.size ≤ 2 ^ 63 - 1) :
    (∀ o, (∃ e, p.decompile o = .error e) ↔ ∃ line i, p.Refuses line i) ∧
    (∀ o e, p.decompile o = .error e ↔
      ∃ line i, p.RefusesFirst line i ∧ e = .unsupportedJump line i.opcode) ∧
    ∀ o code, p.lift = .ok code → ∃ d, p.decompile o = .ok d := by
  have hlt : p.size < 2 ^ 63 := by omega
  refine ⟨fun o ↦ ⟨?_, fun h ↦ ?_⟩,
    fun o e ↦ decompile_eq_error_iff.trans (lift_eq_error_iff hlt), fun o code hcode ↦ ?_⟩
  · rintro ⟨e, he⟩
    obtain ⟨line, i, hfirst, -⟩ := (lift_eq_error_iff hlt).mp (decompile_eq_error_iff.mp he)
    exact ⟨line, i, hfirst.1⟩
  · obtain ⟨line, i, hfirst⟩ := exists_refusesFirst h
    exact ⟨_, decompile_eq_error_iff.mpr (lift_eq_error hlt hfirst)⟩
  · rw [decompile, hcode]
    exact ⟨_, rfl⟩

/-- Jumps past the end, doubles its pointer, and jumps before its first line. -/
def doublePointer : Program :=
  ⟨5, #[⟨.seti, 8, 0, 5⟩, ⟨.muli, 5, 2, 5⟩, ⟨.addi, 5, -4, 5⟩], by decide⟩

theorem decompile_refusal_doublePointer :
    doublePointer.decompile {} = .error (.unsupportedJump 1 .muli) ∧
      doublePointer.decompile { condenseStores := false, recoverStructure := false } =
        .error (.unsupportedJump 1 .muli) := by
  obtain ⟨-, hblame, -⟩ := decompile_refusal (p := doublePointer) (by decide)
  have hfirst : doublePointer.RefusesFirst 1 ⟨.muli, 5, 2, 5⟩ := by
    refine ⟨⟨rfl, by decide⟩, fun k hk j ⟨hj, hrefused⟩ ↦ ?_⟩
    obtain rfl : k = 0 := by omega
    obtain rfl : _ = j := Option.some.inj hj
    exact absurd hrefused (by decide)
  exact ⟨(hblame _ _).mpr ⟨1, _, hfirst, rfl⟩, (hblame _ _).mpr ⟨1, _, hfirst, rfl⟩⟩

end Program

end Unjump
