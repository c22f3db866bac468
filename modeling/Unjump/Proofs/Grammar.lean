import Mathlib.Data.List.Forall2
import Unjump.Machine.Listing
import Unjump.Proofs.Words

/-!
# The grammar of listings

A listing is read from its *rows*, the lines of the text with the blanks around them taken off. The
grammar says what a row has to be, by the classes of its characters, and what it then stands for; it
says nothing about how to find that out. Reading a text accepts exactly the listings of the grammar
(`Lists`), and otherwise gives the fault that the grammar assigns to the first row that has one
(`Blames`).

## Shapes

Letters and digits are not blanks, so a row can be divided in one way only, and the words that
reading looks at are the parts of its shape (`headerShape?_eq_some_iff`,
`instructionShape?_eq_some_iff`). Digits of any script make the right shape. Only ASCII digits
denote a word, and a number that denotes none is blamed for its range.

## Every text is a listing or has a fault

Each of the two sides of the grammar is shown to be followed: what stands for something is read as
that, and what has a fault is blamed for it. That reading does nothing else is then a fact about the
grammar alone: there is no row and no text for which it has no answer (`reads_or_fault`,
`lists_or_blames`).
-/

namespace Unjump

/-! ## First faults -/

/-- The first of a list that does not have a property. -/
def FirstWithout {α : Type} (P : α → Prop) (xs : List α) (x : α) : Prop :=
  ∃ before after, xs = before ++ x :: after ∧ (∀ y ∈ before, P y) ∧ ¬P x

section

variable {α : Type} {P : α → Prop}

theorem not_firstWithout_nil {x : α} : ¬FirstWithout P [] x := by
  rintro ⟨before, after, hxs, -⟩
  simp at hxs

theorem firstWithout_cons_iff {x y : α} {xs : List α} :
    FirstWithout P (x :: xs) y ↔ y = x ∧ ¬P x ∨ P x ∧ FirstWithout P xs y := by
  constructor
  · rintro ⟨before, after, hxs, hbefore, hy⟩
    rcases before with _ | ⟨z, before⟩
    · obtain ⟨rfl, -⟩ := List.cons.inj hxs
      exact .inl ⟨rfl, hy⟩
    · obtain ⟨rfl, rfl⟩ := List.cons.inj hxs
      obtain ⟨hx, hbefore⟩ := List.forall_mem_cons.mp hbefore
      exact .inr ⟨hx, before, after, rfl, hbefore, hy⟩
  · rintro (⟨rfl, hy⟩ | ⟨hx, before, after, rfl, hbefore, hy⟩)
    · exact ⟨[], xs, rfl, by simp, hy⟩
    · exact ⟨x :: before, after, rfl, List.forall_mem_cons.mpr ⟨hx, hbefore⟩, hy⟩

theorem exists_firstWithout {xs : List α} (h : ¬∀ x ∈ xs, P x) : ∃ y, FirstWithout P xs y := by
  induction xs with
  | nil => exact absurd (by simp) h
  | cons x xs ih =>
    simp only [firstWithout_cons_iff]
    by_cases hx : P x
    · obtain ⟨y, hy⟩ := ih fun hxs ↦ h (List.forall_mem_cons.mpr ⟨hx, hxs⟩)
      exact ⟨y, .inr ⟨hx, hy⟩⟩
    · exact ⟨x, .inl ⟨rfl, hx⟩⟩

theorem FirstWithout.find?_eq_some {p : α → Bool} (hp : ∀ x, p x = true ↔ ¬P x) {xs : List α}
    {x : α} (h : FirstWithout P xs x) : xs.find? p = some x := by
  obtain ⟨before, after, rfl, hbefore, hx⟩ := h
  refine List.find?_eq_some_iff_append.mpr ⟨(hp x).mpr hx, before, after, rfl, fun y hy ↦ ?_⟩
  rw [Bool.not_eq_true', ← Bool.not_eq_true, hp y, Classical.not_not]
  exact hbefore y hy

end

/-! ## Numerals -/

/-- A numeral in ASCII digits, and the word that has its value. -/
def Text.Denotes (n : List Char) (w : Word) : Prop :=
  Run Char.isDigit n ∧ w.toInt = Nat.ofDigitChars 10 n 0

theorem Text.word?_eq_some_iff {n : List Char} {w : Word} :
    word? n = some w ↔ Denotes n w := by
  have hmax : Int64.maxValue.toInt = 2 ^ 63 - 1 := by decide
  have hrun : (n.all Char.isDigit && !n.isEmpty) = true ↔ Run Char.isDigit n := by
    simp [Run, and_comm]
  unfold word? Denotes
  by_cases h : (n.all Char.isDigit && !n.isEmpty) = true
  · rw [if_pos h, ← hrun]
    simp only [h, true_and]
    by_cases hle : (Nat.ofDigitChars 10 n 0 : Int) ≤ Int64.maxValue.toInt
    · have hval : (Int64.ofNat (Nat.ofDigitChars 10 n 0)).toInt = Nat.ofDigitChars 10 n 0 :=
        Int64.toInt_ofNat_of_lt (by omega)
      rw [if_pos hle, Option.some.injEq, ← Int64.toInt_inj, hval, eq_comm]
    · have hlt := w.toInt_lt
      rw [if_neg hle]
      simp only [reduceCtorEq, false_iff]
      omega
  · rw [if_neg h]
    simp only [reduceCtorEq, false_iff, not_and]
    exact fun h' ↦ absurd (hrun.mpr h') h

/-! ## Register operands -/

/-- The operand is the number of a register. -/
def Word.NamesRegister (w : Word) : Prop := 0 ≤ w.toInt ∧ w.toInt ≤ 5

theorem Reg.isNone_ofOperand?_iff (w : Word) :
    (Reg.ofOperand? w).isNone = true ↔ ¬w.NamesRegister := by
  rw [Option.isNone_iff_eq_none, Reg.ofOperand?_eq_none_iff, Word.NamesRegister]
  omega

theorem Reg.isSome_ofOperand?_iff {w : Word} : (Reg.ofOperand? w).isSome ↔ w.NamesRegister := by
  rw [← Option.not_isNone, Bool.not_eq_true', ← Bool.not_eq_true, Reg.isNone_ofOperand?_iff,
    Classical.not_not]

namespace Instruction

/-- The operands that have to name registers, in the order in which they are looked at. -/
def registerOperands (i : Instruction) : List Word :=
  (if i.opcode.kinds.1 = .register then [i.a] else []) ++
    (if i.opcode.kinds.2 = .register then [i.b] else []) ++ [i.c]

theorem fault?_eq_find? (i : Instruction) :
    i.fault? = i.registerOperands.find? fun w ↦ (Reg.ofOperand? w).isNone := by
  have hone : ∀ kind w, operandFault? kind w =
      (if kind = .register then [w] else []).find? fun w ↦ (Reg.ofOperand? w).isNone := by
    intro kind w
    by_cases hk : kind = .register <;> by_cases hw : Reg.ofOperand? w = none <;>
      simp [operandFault?, hk, hw]
  rw [fault?, registerOperands, List.find?_append, List.find?_append, hone, hone, hone]
  simp [Option.orElse_eq_orElse, Option.or_assoc]

theorem wellFormed_iff_registerOperands {i : Instruction} :
    i.WellFormed ↔ ∀ w ∈ i.registerOperands, w.NamesRegister := by
  simp only [WellFormed, fault?_eq_find?, List.find?_eq_none, Reg.isNone_ofOperand?_iff,
    Classical.not_not]

theorem fault?_of_firstWithout {i : Instruction} {w : Word}
    (h : FirstWithout Word.NamesRegister i.registerOperands w) : i.fault? = some w := by
  rw [fault?_eq_find?]
  exact h.find?_eq_some Reg.isNone_ofOperand?_iff

end Instruction

namespace Listing

/-! ## The header -/

/-- `#ip`, a gap, and a number. -/
def HeaderShape (row n : List Char) : Prop :=
  ∃ gap, Text.Run Text.isBlank gap ∧ Text.Run Text.isDecimalDigit n ∧
    row = ['#', 'i', 'p'] ++ gap ++ n

/-- The row binds the pointer to a register. -/
def Binds (row : List Char) (ip : Reg) : Prop :=
  ∃ n w, HeaderShape row n ∧ Text.Denotes n w ∧ w.toInt = ip.val

theorem Binds.ne_nil {row : List Char} {ip : Reg} (h : Binds row ip) : row ≠ [] := by
  obtain ⟨n, w, ⟨gap, -, -, rfl⟩, -⟩ := h
  simp

/-- What is wrong with a row that should be the header. -/
inductive HeaderFault (line : Nat) (row : List Char) : Error → Prop
  | shape (h : ¬∃ n, HeaderShape row n) :
    HeaderFault line row (.parse line ("expected `#ip <N>`, got `" ++ String.ofList row ++ "`"))
  | number {n : List Char} (h : HeaderShape row n) (hn : ¬∃ w, Text.Denotes n w) :
    HeaderFault line row (.parse line ("operand out of range: " ++ String.ofList n))
  | register {n : List Char} {w : Word} (h : HeaderShape row n) (hn : Text.Denotes n w)
    (hw : ¬w.NamesRegister) : HeaderFault line row (.invalidRegister line w)

theorem run_of_isNumber {n : List Char} (hn : Text.Run (!Text.isBlank ·) n)
    (h : isNumber n = true) : Text.Run Text.isDecimalDigit n :=
  ⟨hn.1, List.all_eq_true.mp h⟩

theorem isNumber_of_run {n : List Char} (h : Text.Run Text.isDecimalDigit n) :
    isNumber n = true :=
  List.all_eq_true.mpr h.2

theorem run_of_number {n : List Char} (h : Text.Run Text.isDecimalDigit n) :
    Text.Run (!Text.isBlank ·) n :=
  h.mono fun c hc ↦ by rw [Text.isBlank_of_isDecimalDigit hc, Bool.not_false]

/-- **The words of a line show whether it has the shape of a header.** -/
theorem headerShape?_eq_some_iff {text n : List Char} :
    headerShape? text = some n ↔ HeaderShape (Text.trim text) n := by
  constructor
  · intro h
    unfold headerShape? at h
    split at h
    · next tag m hwords =>
      obtain ⟨⟨rfl, hnum⟩, hm⟩ := Option.ite_none_right_eq_some.mp h
      obtain rfl := Option.some.inj hm
      obtain ⟨gap, rest, -, hgap, hrest, htrim⟩ :=
        Text.spaced_cons_iff.mp (Text.words_eq_iff.mp hwords)
      obtain ⟨hn, rfl⟩ := Text.spaced_singleton_iff.mp hrest
      exact ⟨gap, hgap, run_of_isNumber hn hnum, htrim⟩
    · cases h
  · rintro ⟨gap, hgap, hn, htrim⟩
    have htag : Text.Run (!Text.isBlank ·) ['#', 'i', 'p'] :=
      ⟨List.cons_ne_nil _ _, List.all_eq_true.mp rfl⟩
    have hwords : Text.words text = [['#', 'i', 'p'], n] := by
      rw [Text.words_eq_iff, htrim]
      exact .cons htag hgap (.one (run_of_number hn))
    simp only [headerShape?, hwords, isNumber_of_run hn, and_self, if_true]

theorem readWord_of_denotes {line : Nat} {n : List Char} {w : Word} (h : Text.Denotes n w) :
    readWord line n = .ok w := by
  rw [readWord, Text.word?_eq_some_iff.mpr h]

theorem readWord_of_not_denotes {line : Nat} {n : List Char} (h : ¬∃ w, Text.Denotes n w) :
    readWord line n = .error (.parse line ("operand out of range: " ++ String.ofList n)) := by
  rcases hw : Text.word? n with _ | w
  · rw [readWord, hw]
  · exact absurd ⟨w, Text.word?_eq_some_iff.mp hw⟩ h

theorem readHeader_of_denotes {line : Nat} {text n : List Char} {w : Word}
    (hshape : HeaderShape (Text.trim text) n) (hw : Text.Denotes n w) :
    readHeader line text =
      match Reg.ofOperand? w with
      | some ip => .ok ip
      | none => .error (.invalidRegister line w) := by
  rw [readHeader, headerShape?_eq_some_iff.mpr hshape]
  simp only [readWord_of_denotes hw]
  rfl

theorem readHeader_of_binds {line : Nat} {text : List Char} {ip : Reg}
    (h : Binds (Text.trim text) ip) : readHeader line text = .ok ip := by
  obtain ⟨n, w, hshape, hw, hip⟩ := h
  rw [readHeader_of_denotes hshape hw, Reg.ofOperand?_eq_some_iff.mpr hip]

theorem readHeader_of_fault {line : Nat} {text : List Char} {e : Error}
    (h : HeaderFault line (Text.trim text) e) : readHeader line text = .error e := by
  cases h with
  | shape h =>
    have hnone : headerShape? text = none :=
      Option.eq_none_iff_forall_ne_some.mpr fun n hn ↦ h ⟨n, headerShape?_eq_some_iff.mp hn⟩
    rw [readHeader, hnone]
  | number h hn =>
    rw [readHeader, headerShape?_eq_some_iff.mpr h]
    simp only [readWord_of_not_denotes hn]
    rfl
  | register h hn hw =>
    have hnone := Option.isNone_iff_eq_none.mp ((Reg.isNone_ofOperand?_iff _).mpr hw)
    rw [readHeader_of_denotes h hn, hnone]

theorem binds_or_fault (line : Nat) (row : List Char) :
    (∃ ip, Binds row ip) ∨ ∃ e, HeaderFault line row e := by
  by_cases hshape : ∃ n, HeaderShape row n
  · obtain ⟨n, hn⟩ := hshape
    by_cases hword : ∃ w, Text.Denotes n w
    · obtain ⟨w, hw⟩ := hword
      by_cases hreg : w.NamesRegister
      · have hlt : w.toInt.toNat < 6 := by
          have := hreg.2
          omega
        exact .inl ⟨⟨w.toInt.toNat, hlt⟩, n, w, hn, hw, (Int.toNat_of_nonneg hreg.1).symm⟩
      · exact .inr ⟨_, .register hn hw hreg⟩
    · exact .inr ⟨_, .number hn hword⟩
  · exact .inr ⟨_, .shape hshape⟩

/-! ## Instructions -/

/-- Letters and three numbers, with gaps between them. -/
def InstructionShape (row m a b c : List Char) : Prop :=
  ∃ gap₁ gap₂ gap₃, Text.Run Text.isBlank gap₁ ∧ Text.Run Text.isBlank gap₂ ∧
    Text.Run Text.isBlank gap₃ ∧ Text.Run Char.isAlpha m ∧ Text.Run Text.isDecimalDigit a ∧
    Text.Run Text.isDecimalDigit b ∧ Text.Run Text.isDecimalDigit c ∧
    row = m ++ gap₁ ++ (a ++ gap₂ ++ (b ++ gap₃ ++ c))

/-- The row is an instruction. -/
def Reads (row : List Char) (i : Instruction) : Prop :=
  ∃ m a b c, InstructionShape row m a b c ∧ i.opcode.mnemonic = String.ofList m ∧
    Text.Denotes a i.a ∧ Text.Denotes b i.b ∧ Text.Denotes c i.c ∧
    ∀ w ∈ i.registerOperands, w.NamesRegister

/-- What is wrong with a row that should be an instruction. -/
inductive Fault (line : Nat) (row : List Char) : Error → Prop
  | shape (h : ¬∃ m a b c, InstructionShape row m a b c) :
    Fault line row
      (.parse line ("expected `<mnemonic> <a> <b> <c>`, got `" ++ String.ofList row ++ "`"))
  | mnemonic {m a b c : List Char} (h : InstructionShape row m a b c)
    (hm : ∀ op : Opcode, op.mnemonic ≠ String.ofList m) :
    Fault line row (.unknownOpcode line (String.ofList m))
  | number {m a b c n : List Char} {op : Opcode} (h : InstructionShape row m a b c)
    (hm : op.mnemonic = String.ofList m)
    (hn : FirstWithout (fun n ↦ ∃ w, Text.Denotes n w) [a, b, c] n) :
    Fault line row (.parse line ("operand out of range: " ++ String.ofList n))
  | register {m a b c : List Char} {i : Instruction} {w : Word} (h : InstructionShape row m a b c)
    (hm : i.opcode.mnemonic = String.ofList m) (ha : Text.Denotes a i.a) (hb : Text.Denotes b i.b)
    (hc : Text.Denotes c i.c) (hw : FirstWithout Word.NamesRegister i.registerOperands w) :
    Fault line row (.invalidRegister line w)

/-- **The words of a line show whether it has the shape of an instruction.** -/
theorem instructionShape?_eq_some_iff {text m a b c : List Char} :
    instructionShape? text = some (m, a, b, c) ↔ InstructionShape (Text.trim text) m a b c := by
  constructor
  · intro h
    unfold instructionShape? at h
    split at h
    · next m' a' b' c' hwords =>
      obtain ⟨⟨hm, ha, hb, hc⟩, heq⟩ := Option.ite_none_right_eq_some.mp h
      cases heq
      obtain ⟨gap₁, rest₁, hm', hgap₁, hrest₁, htrim⟩ :=
        Text.spaced_cons_iff.mp (Text.words_eq_iff.mp hwords)
      obtain ⟨gap₂, rest₂, ha', hgap₂, hrest₂, rfl⟩ := Text.spaced_cons_iff.mp hrest₁
      obtain ⟨gap₃, rest₃, hb', hgap₃, hrest₃, rfl⟩ := Text.spaced_cons_iff.mp hrest₂
      obtain ⟨hc', rfl⟩ := Text.spaced_singleton_iff.mp hrest₃
      exact ⟨gap₁, gap₂, gap₃, hgap₁, hgap₂, hgap₃, ⟨hm'.1, List.all_eq_true.mp hm⟩,
        run_of_isNumber ha' ha, run_of_isNumber hb' hb, run_of_isNumber hc' hc, htrim⟩
    · cases h
  · rintro ⟨gap₁, gap₂, gap₃, hgap₁, hgap₂, hgap₃, hm, ha, hb, hc, htrim⟩
    have hm' : Text.Run (!Text.isBlank ·) m :=
      hm.mono fun c hc ↦ by rw [Text.isBlank_of_isAlpha hc, Bool.not_false]
    have hwords : Text.words text = [m, a, b, c] := by
      rw [Text.words_eq_iff, htrim]
      exact .cons hm' hgap₁ (.cons (run_of_number ha) hgap₂ (.cons (run_of_number hb) hgap₃
        (.one (run_of_number hc))))
    simp only [instructionShape?, hwords, List.all_eq_true.mpr hm.2, isNumber_of_run ha,
      isNumber_of_run hb, isNumber_of_run hc, and_self, if_true]

theorem ofMnemonic?_of_eq {op : Opcode} {m : List Char} (h : op.mnemonic = String.ofList m) :
    Opcode.ofMnemonic? (String.ofList m) = some op := by
  rw [← h, Opcode.ofMnemonic?_mnemonic]

theorem check_of_wellFormed (line : Nat) {i : Instruction} (h : i.WellFormed) :
    check line i = .ok ⟨i, h⟩ := by
  unfold check
  split
  · rfl
  · next operand hf =>
    rw [h] at hf
    cases hf

theorem check_of_fault? (line : Nat) {i : Instruction} {w : Word} (h : i.fault? = some w) :
    check line i = .error (.invalidRegister line w) := by
  unfold check
  split
  · next hf =>
    rw [h] at hf
    cases hf
  · next operand hf => rw [Option.some.inj (hf.symm.trans h)]

/-- With the right shape and a mnemonic, the numbers are read one after the other. -/
theorem readInstruction_of_mnemonic {line : Nat} {text m a b c : List Char} {op : Opcode}
    (hshape : InstructionShape (Text.trim text) m a b c) (hm : op.mnemonic = String.ofList m) :
    readInstruction line text =
      (readWord line a >>= fun u ↦ readWord line b >>= fun v ↦ readWord line c >>= fun w ↦
        check line ⟨op, u, v, w⟩) := by
  rw [readInstruction, instructionShape?_eq_some_iff.mpr hshape]
  simp only [ofMnemonic?_of_eq hm]
  rfl

theorem readInstruction_of_denotes {line : Nat} {text m a b c : List Char} {i : Instruction}
    (hshape : InstructionShape (Text.trim text) m a b c)
    (hm : i.opcode.mnemonic = String.ofList m) (ha : Text.Denotes a i.a)
    (hb : Text.Denotes b i.b) (hc : Text.Denotes c i.c) :
    readInstruction line text = check line i := by
  rw [readInstruction_of_mnemonic hshape hm, readWord_of_denotes ha, readWord_of_denotes hb,
    readWord_of_denotes hc]
  rfl

theorem readInstruction_of_reads {text : List Char} {i : Instruction}
    (h : Reads (Text.trim text) i) (line : Nat) :
    ∃ hi, readInstruction line text = .ok ⟨i, hi⟩ := by
  obtain ⟨m, a, b, c, hshape, hm, ha, hb, hc, hregs⟩ := h
  have hi : i.WellFormed := Instruction.wellFormed_iff_registerOperands.mpr hregs
  exact ⟨hi, by rw [readInstruction_of_denotes hshape hm ha hb hc, check_of_wellFormed line hi]⟩

theorem readInstruction_of_fault {line : Nat} {text : List Char} {e : Error}
    (h : Fault line (Text.trim text) e) : readInstruction line text = .error e := by
  cases h with
  | shape h =>
    have hnone : instructionShape? text = none :=
      Option.eq_none_iff_forall_ne_some.mpr fun ⟨m, a, b, c⟩ hs ↦
        h ⟨m, a, b, c, instructionShape?_eq_some_iff.mp hs⟩
    rw [readInstruction, hnone]
  | @mnemonic m a b c h hm =>
    have hnone : Opcode.ofMnemonic? (String.ofList m) = none :=
      Option.eq_none_iff_forall_ne_some.mpr fun op hop ↦ hm op (Opcode.mnemonic_of_ofMnemonic? hop)
    rw [readInstruction, instructionShape?_eq_some_iff.mpr h]
    simp only [hnone]
    rfl
  | number h hm hn =>
    rw [readInstruction_of_mnemonic h hm]
    simp only [firstWithout_cons_iff] at hn
    rcases hn with ⟨rfl, ha⟩ | ⟨⟨u, ha⟩, ⟨rfl, hb⟩ | ⟨⟨v, hb⟩, ⟨rfl, hc⟩ | ⟨-, hnil⟩⟩⟩
    · rw [readWord_of_not_denotes ha]
      rfl
    · rw [readWord_of_denotes ha, readWord_of_not_denotes hb]
      rfl
    · rw [readWord_of_denotes ha, readWord_of_denotes hb, readWord_of_not_denotes hc]
      rfl
    · exact absurd hnil not_firstWithout_nil
  | register h hm ha hb hc hw =>
    rw [readInstruction_of_denotes h hm ha hb hc,
      check_of_fault? line (Instruction.fault?_of_firstWithout hw)]

theorem reads_or_fault (line : Nat) (row : List Char) :
    (∃ i, Reads row i) ∨ ∃ e, Fault line row e := by
  by_cases hshape : ∃ m a b c, InstructionShape row m a b c
  · obtain ⟨m, a, b, c, hs⟩ := hshape
    by_cases hop : ∃ op : Opcode, op.mnemonic = String.ofList m
    · obtain ⟨op, hm⟩ := hop
      by_cases hwords : ∀ n ∈ [a, b, c], ∃ w, Text.Denotes n w
      · obtain ⟨u, ha⟩ := hwords a (by simp)
        obtain ⟨v, hb⟩ := hwords b (by simp)
        obtain ⟨w, hc⟩ := hwords c (by simp)
        by_cases hregs : ∀ x ∈ Instruction.registerOperands ⟨op, u, v, w⟩, x.NamesRegister
        · exact .inl ⟨⟨op, u, v, w⟩, m, a, b, c, hs, hm, ha, hb, hc, hregs⟩
        · obtain ⟨x, hx⟩ := exists_firstWithout hregs
          exact .inr ⟨_, .register hs hm ha hb hc hx⟩
      · obtain ⟨n, hn⟩ := exists_firstWithout hwords
        exact .inr ⟨_, .number hs hm hn⟩
    · exact .inr ⟨_, .mnemonic hs fun op hop' ↦ hop ⟨op, hop'⟩⟩
  · exact .inr ⟨_, .shape hshape⟩

/-! ## Texts -/

/-- The rows of a text: its lines, trimmed. -/
def Rows (text : String) (rows : List (List Char)) : Prop :=
  ∃ ls, Text.Lined text.toList ls ∧ List.Forall₂ Text.Trimmed ls rows

/-- What rows list. The first that is not empty binds the pointer, and the others that are not empty
are the instructions. -/
def Lists (rows : List (List Char)) (ip : Reg) (is : List Instruction) : Prop :=
  ∃ header body, rows.filter (!·.isEmpty) = header :: body ∧ Binds header ip ∧
    List.Forall₂ Reads body is

/-- What rows that list nothing are blamed for. Rows are numbered from 1, empty ones included. -/
inductive Blames (rows : List (List Char)) : Error → Prop
  | empty (h : ∀ row ∈ rows, row = []) : Blames rows (.parse 1 "missing #ip header")
  | header {before after : List (List Char)} {row : List Char} {e : Error}
    (hrows : rows = before ++ row :: after) (hbefore : ∀ r ∈ before, r = []) (hrow : row ≠ [])
    (h : HeaderFault (before.length + 1) row e) : Blames rows e
  | instruction {before between after : List (List Char)} {header row : List Char} {ip : Reg}
    {e : Error} (hrows : rows = before ++ header :: (between ++ row :: after))
    (hbefore : ∀ r ∈ before, r = []) (hheader : Binds header ip)
    (hbetween : ∀ r ∈ between, r = [] ∨ ∃ i, Reads r i) (hrow : row ≠ [])
    (h : Fault (before.length + 1 + between.length + 1) row e) : Blames rows e

/-- **A text has one list of rows.** -/
theorem rows_iff {text : String} {rows : List (List Char)} :
    Rows text rows ↔ rows = (Text.lines text.toList).map Text.trim := by
  have htrim : Text.Trimmed = fun line t ↦ Text.trim line = t := by
    funext line t
    rw [Text.trimmed_iff, eq_comm (a := t)]
  rw [eq_comm, ← List.forall₂_eq_eq_eq, List.forall₂_map_left_iff]
  simp only [Rows, Text.lined_iff, exists_eq_left, htrim]

/-! ## Numbered lines -/

/-- The lines that are not blank, numbered from `k`. -/
def numberedFrom (k : Nat) (ls : List (List Char)) : List (List Char × Nat) :=
  (ls.zipIdx k).filter fun (cs, _) ↦ !(Text.words cs).isEmpty

theorem numberedLines_eq (text : List Char) :
    numberedLines text = numberedFrom 1 (Text.lines text) := rfl

theorem numberedFrom_append (k : Nat) (ls ls' : List (List Char)) :
    numberedFrom k (ls ++ ls') = numberedFrom k ls ++ numberedFrom (k + ls.length) ls' := by
  rw [numberedFrom, List.zipIdx_append, List.filter_append]
  rfl

theorem numberedFrom_cons_of_ne_nil {l : List Char} (h : Text.trim l ≠ []) (k : Nat)
    (ls : List (List Char)) : numberedFrom k (l :: ls) = (l, k) :: numberedFrom (k + 1) ls := by
  have hw : Text.words l ≠ [] := fun hw ↦ h (Text.words_eq_nil_iff.mp hw)
  rw [numberedFrom, List.zipIdx_cons, List.filter_cons_of_pos (by simp [hw])]
  rfl

theorem numberedFrom_cons_of_eq_nil {l : List Char} (h : Text.trim l = []) (k : Nat)
    (ls : List (List Char)) : numberedFrom k (l :: ls) = numberedFrom (k + 1) ls := by
  rw [numberedFrom, List.zipIdx_cons,
    List.filter_cons_of_neg (by simp [Text.words_eq_nil_iff.mpr h])]
  rfl

theorem numberedFrom_eq_nil {ls : List (List Char)} (h : ∀ r ∈ ls.map Text.trim, r = [])
    (k : Nat) : numberedFrom k ls = [] := by
  induction ls generalizing k with
  | nil => rfl
  | cons l ls ih =>
    obtain ⟨hl, hls⟩ := List.forall_mem_cons.mp h
    rw [numberedFrom_cons_of_eq_nil hl, ih hls]

/-- The numbered lines have the rows that are not empty. -/
theorem map_numberedFrom (k : Nat) (ls : List (List Char)) :
    (numberedFrom k ls).map (fun (l, _) ↦ Text.trim l) =
      (ls.map Text.trim).filter (!·.isEmpty) := by
  induction ls generalizing k with
  | nil => rfl
  | cons l ls ih =>
    by_cases h : Text.trim l = []
    · rw [numberedFrom_cons_of_eq_nil h, ih, List.map_cons, List.filter_cons_of_neg (by simp [h])]
    · rw [numberedFrom_cons_of_ne_nil h, List.map_cons, ih, List.map_cons,
        List.filter_cons_of_pos (by simp [h])]

theorem of_mem_numberedFrom {k j : Nat} {l : List Char} {ls : List (List Char)}
    (h : (l, j) ∈ numberedFrom k ls) : Text.trim l ∈ ls.map Text.trim ∧ Text.trim l ≠ [] := by
  have hmem := List.mem_map_of_mem (f := fun (l, _) ↦ Text.trim l) h
  rw [map_numberedFrom, List.mem_filter] at hmem
  exact ⟨hmem.1, by simpa using hmem.2⟩

/-! ## Reading a text -/

theorem mapM_readInstruction_of_reads {ls : List (List Char × Nat)} {is : List Instruction}
    (h : List.Forall₂ Reads (ls.map fun (l, _) ↦ Text.trim l) is) :
    ∃ js, ls.mapM (fun (l, k) ↦ readInstruction k l) = .ok js ∧ js.map Subtype.val = is := by
  induction ls generalizing is with
  | nil =>
    obtain rfl := List.forall₂_nil_left_iff.mp h
    exact ⟨[], rfl, rfl⟩
  | cons x ls ih =>
    obtain ⟨l, k⟩ := x
    obtain ⟨i, is, hi, his, rfl⟩ := List.forall₂_cons_left_iff.mp h
    obtain ⟨hwf, hread⟩ := readInstruction_of_reads hi k
    obtain ⟨js, hjs, rfl⟩ := ih his
    refine ⟨⟨i, hwf⟩ :: js, ?_, rfl⟩
    rw [List.mapM_cons, hjs]
    simp only [hread]
    rfl

/-- The first failure among many is the failure of all. -/
theorem mapM_eq_error {ε α β : Type} {f : α → Except ε β} {before : List α} {x : α} {e : ε}
    (hbefore : ∀ y ∈ before, ∃ b, f y = .ok b) (hx : f x = .error e) (after : List α) :
    (before ++ x :: after).mapM f = .error e := by
  induction before with
  | nil =>
    rw [List.nil_append, List.mapM_cons, hx]
    rfl
  | cons y before ih =>
    obtain ⟨⟨b, hb⟩, hbefore⟩ := List.forall_mem_cons.mp hbefore
    rw [List.cons_append, List.mapM_cons, hb, ih hbefore]
    rfl

theorem parse_of_header {text : String} {l : List Char} {k : Nat} {ls : List (List Char × Nat)}
    (h : numberedFrom 1 (Text.lines text.toList) = (l, k) :: ls) :
    parse text = (readHeader k l >>= fun ip ↦
      ls.mapM (fun (l, k) ↦ readInstruction k l) >>= fun is ↦ pure (ofChecked ip is)) := by
  rw [parse, numberedLines_eq, h]

/-- What rows list is read, and passes the check of a whole program. -/
theorem parse_of_lists {text : String} {ip : Reg} {is : List Instruction}
    (h : Lists ((Text.lines text.toList).map Text.trim) ip is) :
    ∃ p, Program.ofInstructions ip is.toArray = .ok p ∧ parse text = .ok p := by
  obtain ⟨header, body, hrows, hheader, hbody⟩ := h
  rw [← map_numberedFrom 1] at hrows
  obtain ⟨⟨l, k⟩, ls, hls, rfl, rfl⟩ := List.map_eq_cons_iff.mp hrows
  obtain ⟨js, hjs, rfl⟩ := mapM_readInstruction_of_reads hbody
  refine ⟨ofChecked ip js, Program.ofInstructions_eq_ok_iff.mpr ⟨rfl, rfl⟩, ?_⟩
  rw [parse_of_header hls, readHeader_of_binds hheader, hjs]
  rfl

theorem parse_of_blames {text : String} {e : Error}
    (h : Blames ((Text.lines text.toList).map Text.trim) e) : parse text = .error e := by
  cases h with
  | empty h => rw [parse, numberedLines_eq, numberedFrom_eq_nil h]
  | header hrows hbefore hrow h =>
    obtain ⟨bs, ls, hls, rfl, hmap⟩ := List.map_eq_append_iff.mp hrows
    obtain ⟨l, as, rfl, rfl, rfl⟩ := List.map_eq_cons_iff.mp hmap
    have hnum : numberedFrom 1 (Text.lines text.toList) =
        (l, bs.length + 1) :: numberedFrom (bs.length + 2) as := by
      rw [hls, numberedFrom_append, numberedFrom_eq_nil hbefore, numberedFrom_cons_of_ne_nil hrow,
        List.nil_append, Nat.add_comm 1]
    rw [List.length_map] at h
    rw [parse_of_header hnum, readHeader_of_fault h]
    rfl
  | instruction hrows hbefore hheader hbetween hrow h =>
    obtain ⟨bs, ls₁, hls, rfl, hmap₁⟩ := List.map_eq_append_iff.mp hrows
    obtain ⟨l, ls₂, rfl, rfl, hmap₂⟩ := List.map_eq_cons_iff.mp hmap₁
    obtain ⟨ms, ls₃, rfl, rfl, hmap₃⟩ := List.map_eq_append_iff.mp hmap₂
    obtain ⟨l', as, rfl, rfl, rfl⟩ := List.map_eq_cons_iff.mp hmap₃
    have hne : Text.trim l ≠ [] := hheader.ne_nil
    -- numbers count the blank lines that are left out here
    have hnum : numberedFrom 1 (Text.lines text.toList) =
        (l, bs.length + 1) :: (numberedFrom (bs.length + 2) ms ++
          (l', bs.length + 1 + ms.length + 1) ::
            numberedFrom (bs.length + 1 + ms.length + 2) as) := by
      rw [hls, numberedFrom_append, numberedFrom_eq_nil hbefore, numberedFrom_cons_of_ne_nil hne,
        numberedFrom_append, numberedFrom_cons_of_ne_nil hrow, List.nil_append, Nat.add_comm 1,
        Nat.add_right_comm (bs.length + 1) 1]
    have hread : ∀ x ∈ numberedFrom (bs.length + 2) ms,
        ∃ b, (fun (l, k) ↦ readInstruction k l) x = .ok b := by
      rintro ⟨m, k⟩ hm
      obtain ⟨hmem, hm⟩ := of_mem_numberedFrom hm
      obtain ⟨i, hi⟩ := (hbetween _ hmem).resolve_left hm
      obtain ⟨hwf, hread⟩ := readInstruction_of_reads hi k
      exact ⟨_, hread⟩
    rw [List.length_map, List.length_map] at h
    rw [parse_of_header hnum, readHeader_of_binds hheader,
      mapM_eq_error hread (readInstruction_of_fault h)]
    rfl

/-- Rows that are read one by one list what they are read as. -/
theorem exists_forall₂_reads {rows : List (List Char)}
    (h : ∀ r ∈ rows, r = [] ∨ ∃ i, Reads r i) :
    ∃ is, List.Forall₂ Reads (rows.filter (!·.isEmpty)) is := by
  induction rows with
  | nil => exact ⟨[], .nil⟩
  | cons r rows ih =>
    obtain ⟨hr, hrows⟩ := List.forall_mem_cons.mp h
    obtain ⟨is, his⟩ := ih hrows
    by_cases hnil : r = []
    · exact ⟨is, by rwa [List.filter_cons_of_neg (by simp [hnil])]⟩
    · obtain ⟨i, hi⟩ := hr.resolve_left hnil
      exact ⟨i :: is, by rw [List.filter_cons_of_pos (by simp [hnil])]; exact .cons hi his⟩

/-- **Rows list a program or are blamed for something.** -/
theorem lists_or_blames (rows : List (List Char)) :
    (∃ ip is, Lists rows ip is) ∨ ∃ e, Blames rows e := by
  -- the header is the first row that is not empty, and a fault the first behind it that is not read
  by_cases hempty : ∀ row ∈ rows, row = []
  · exact .inr ⟨_, .empty hempty⟩
  obtain ⟨header, before, after, rfl, hbefore, hheader⟩ := exists_firstWithout hempty
  rcases binds_or_fault (before.length + 1) header with ⟨ip, hip⟩ | ⟨e, he⟩
  · by_cases hall : ∀ r ∈ after, r = [] ∨ ∃ i, Reads r i
    · obtain ⟨is, his⟩ := exists_forall₂_reads hall
      refine .inl ⟨ip, is, header, _, ?_, hip, his⟩
      rw [List.filter_append, List.filter_eq_nil_iff.mpr fun r hr ↦ by simp [hbefore r hr],
        List.filter_cons_of_pos (by simp [hheader]), List.nil_append]
    · obtain ⟨row, between, rest, rfl, hbetween, hrow⟩ := exists_firstWithout hall
      obtain ⟨hne, hread⟩ := not_or.mp hrow
      obtain ⟨e, he⟩ := (reads_or_fault (before.length + 1 + between.length + 1) row).resolve_left
        hread
      exact .inr ⟨e, .instruction rfl hbefore hip hbetween hne he⟩
  · exact .inr ⟨e, .header rfl hbefore hheader he⟩

/-- **Reading accepts exactly the listings of the grammar, and blames the first fault.** What is
read holds just what the rows list. Once they list something, the check of a whole program finds no
fault. -/
theorem parse_follows_grammar (text : String) :
    ∃ rows, (∀ rows', Rows text rows' ↔ rows' = rows) ∧
      (∀ p, parse text = .ok p ↔ Lists rows p.ip p.instructions.toList) ∧
      (∀ ip is, Lists rows ip is →
        ∃ p, Program.ofInstructions ip is.toArray = .ok p ∧ parse text = .ok p) ∧
      ∀ e, parse text = .error e ↔ Blames rows e := by
  refine ⟨_, fun rows' ↦ rows_iff, fun p ↦ ⟨fun h ↦ ?_, fun h ↦ ?_⟩, fun ip is ↦ parse_of_lists,
    fun e ↦ ⟨fun h ↦ ?_, parse_of_blames⟩⟩
  · rcases lists_or_blames ((Text.lines text.toList).map Text.trim) with ⟨ip, is, hl⟩ | ⟨e, he⟩
    · obtain ⟨q, hnew, hq⟩ := parse_of_lists hl
      obtain rfl := Except.ok.inj (h.symm.trans hq)
      obtain ⟨rfl, his⟩ := Program.ofInstructions_eq_ok_iff.mp hnew
      rwa [his]
    · rw [parse_of_blames he] at h
      cases h
  · obtain ⟨q, hnew, hq⟩ := parse_of_lists h
    have hp : Program.ofInstructions p.ip p.instructions = .ok p :=
      Program.ofInstructions_eq_ok_iff.mpr ⟨rfl, rfl⟩
    rw [hq, ← hnew, ← hp]
  · rcases lists_or_blames ((Text.lines text.toList).map Text.trim) with ⟨ip, is, hl⟩ | ⟨e', he⟩
    · obtain ⟨q, -, hq⟩ := parse_of_lists hl
      rw [hq] at h
      cases h
    · obtain rfl := Except.error.inj (h.symm.trans (parse_of_blames he))
      exact he

/-- A listing with blanks of several kinds and an empty line, and one whose first instruction has
two operands that name no register. -/
theorem parse_follows_grammar_blanks :
    (∃ rows, Rows " #ip 3\r\n\n seti\t5 0\u00a01 \n" rows ∧ Lists rows 3 [⟨.seti, 5, 0, 1⟩] ∧
      ∃ p, Program.ofInstructions 3 #[⟨.seti, 5, 0, 1⟩] = .ok p ∧
        parse " #ip 3\r\n\n seti\t5 0\u00a01 \n" = .ok p) ∧
    ∃ rows, Rows "#ip 0\n\naddi 9 8 7\nnoop" rows ∧ Blames rows (.invalidRegister 3 9) := by
  have hread : parse " #ip 3\r\n\n seti\t5 0\u00a01 \n" =
      .ok ⟨3, #[⟨.seti, 5, 0, 1⟩], by decide⟩ := rfl
  have hfault : parse "#ip 0\n\naddi 9 8 7\nnoop" = .error (.invalidRegister 3 9) := rfl
  obtain ⟨rows, hrows, hok, hnew, -⟩ :=
    parse_follows_grammar " #ip 3\r\n\n seti\t5 0\u00a01 \n"
  obtain ⟨rows', hrows', -, -, herror⟩ := parse_follows_grammar "#ip 0\n\naddi 9 8 7\nnoop"
  have hlists := (hok _).mp hread
  exact ⟨⟨rows, (hrows rows).mpr rfl, hlists, hnew _ _ hlists⟩,
    rows', (hrows' rows').mpr rfl, (herror _).mp hfault⟩

end Listing

end Unjump
