import Unjump.Verify
import Unjump.Proofs.Condensing
import Unjump.Proofs.Fusion

/-!
# Decompilations without warnings are faithful

A decompilation lists what it assumed and what it left undone. If the list is empty, nothing was
assumed about products into the pointer, no store was dropped, no guard was put in, and no statement
of the code is left that transfers control to a line. From this the stages can be put together: the
machine runs in step with lifted code, which shortening leaves as it is, and the folds do the rest.

## Skips

The folds are not all of one kind, though. Fusions are sound for code that is flat and in which all
skips have their places, and the other folds for code without skips. So every skip must have been
fused before any other fold was made. This is known only from the end: fusions come first, the other
folds neither take a skip away nor make room for a fusion (`Code.plain_of_recover`), and no skip is
left. Going back from there over the fusions, each skip was in its place at the start
(`Code.guarded_of_foldAll`).

## Steps

No stage but the last kind of fold makes a run longer, and those only where something stops the run.
Without products into the pointer nothing does, so the decompiled code halts under every limit under
which the machine does.
-/

namespace Unjump

/-! ## The forms of lifted statements -/

/-- The statement adds a register to the pointer. -/
def Stmt.IsSkip (ip flag : Reg) (s : Stmt) : Prop :=
  s = .assign ip (.bin .add (.reg ip) (.reg flag)) ∨
    s = .assign ip (.bin .add (.reg flag) (.reg ip))

/-- The forms that lifted statements have. -/
inductive Stmt.Lifted (ip : Reg) : Stmt → Prop
  | store {dest : Reg} {a b : Expr} (op : Opcode) (hd : dest ≠ ip) (ha : a.reads ip = false)
    (hb : b.reads ip = false) : Lifted ip (Instruction.store dest a b op)
  | jump {t : Nat} (ht : t < 2 ^ 63) : Lifted ip (.goto t)
  | skip {flag : Reg} {s : Stmt} (hflag : flag ≠ ip) (hs : s.IsSkip ip flag) : Lifted ip s
  | halt : Lifted ip .halt

namespace Instruction

variable {ip : Reg} {line : Nat}

theorem reads_of_source {kind : Opcode.Source} {operand : Word} {e : Expr}
    (h : source ip line kind operand = .ok e) : e.reads ip = false := by
  cases kind with
  | register =>
    obtain ⟨k, -, he⟩ := exists_ok_of_bind h
    have he : (if k = ip then Expr.lit (Int64.ofNat line) else .reg k) = e := Except.ok.inj he
    rw [← he]
    split
    · rfl
    · next hk => simpa [Expr.reads] using Ne.symm hk
  | immediate =>
    cases h
    rfl
  | ignored =>
    cases h
    rfl

theorem lifted_of_jump (ip : Reg) {opcode : Opcode} {target? : Option Nat} {s : Stmt}
    (h : jump line opcode target? = .ok s) (ht : ∀ t, target? = some t → t < 2 ^ 63) :
    s.Lifted ip ∧ s ≠ .halt := by
  cases target? with
  | none => cases h
  | some t =>
    cases h
    exact ⟨.jump (ht t rfl), nofun⟩

theorem lt_of_lineAfter? {w offset : Word} {t : Nat} (h : lineAfter? w offset = some t) :
    t < 2 ^ 63 :=
  Word.lt_of_line? (line?_of_lineAfter? h)

/-- Writes to the pointer are lifted to jumps, to skips and, if they are products, to `halt`. -/
theorem lifted_of_liftPointerWrite {i : Instruction} {s : Stmt}
    (h : i.liftPointerWrite ip line = .ok s) :
    s.Lifted ip ∧ (s = .halt → i.opcode = .mulr) := by
  obtain ⟨op, a, b, c⟩ := i
  cases op with
  | addi =>
    have hjump := lifted_of_jump ip h fun t ht ↦ by
      split at ht
      · exact lt_of_lineAfter? ht
      · cases ht
    exact ⟨hjump.1, fun heq ↦ absurd heq hjump.2⟩
  | seti =>
    have hjump := lifted_of_jump ip h fun t ht ↦ lt_of_lineAfter? ht
    exact ⟨hjump.1, fun heq ↦ absurd heq hjump.2⟩
  | addr =>
    simp only [liftPointerWrite] at h
    split at h
    · next hone =>
      obtain ⟨ra, hra, h⟩ := exists_ok_of_bind h
      obtain ⟨rb, hrb, h⟩ := exists_ok_of_bind h
      cases h
      rw [register_eq_ok_iff] at hra hrb
      rw [hra, hrb] at hone
      have hone : ¬(ra = ip ↔ rb = ip) := by
        rw [bne_iff_ne, ne_eq, Bool.eq_iff_iff] at hone
        simpa using hone
      refine ⟨?_, fun hs ↦ by cases hs⟩
      by_cases ha : ra = ip
      · have hb : rb ≠ ip := fun hb ↦ hone (by simp [ha, hb])
        exact .skip hb (.inl (by rw [ha]))
      · have hb : rb = ip := Classical.byContradiction fun hb ↦ hone (by simp [ha, hb])
        exact .skip ha (.inr (by rw [hb]))
    · cases h
  | mulr =>
    cases h
    exact ⟨.halt, fun _ ↦ rfl⟩
  | _ => cases h

theorem lifted_of_lift {i : Instruction} {s : Stmt} (h : i.lift ip line = .ok s) :
    s.Lifted ip ∧ (s = .halt → i.opcode = .mulr ∧ Reg.ofOperand? i.c = some ip) := by
  obtain ⟨dest, hdest, h⟩ := exists_ok_of_bind h
  split at h
  · next heq =>
    obtain ⟨hl, hhalt⟩ := lifted_of_liftPointerWrite h
    rw [register_eq_ok_iff, heq] at hdest
    exact ⟨hl, fun hs ↦ ⟨hhalt hs, hdest⟩⟩
  · next hne =>
    obtain ⟨a, ha, h⟩ := exists_ok_of_bind h
    obtain ⟨b, hb, h⟩ := exists_ok_of_bind h
    cases h
    refine ⟨.store i.opcode hne (reads_of_source ha) (reads_of_source hb), fun hs ↦ ?_⟩
    cases hop : i.opcode <;> rw [hop] at hs <;> cases hs

end Instruction

/-- A skip is written as an update of the pointer. -/
theorem Stores.shorten_of_isSkip {ip flag : Reg} {s : Stmt} (h : s.IsSkip ip flag) :
    shorten s = .update .add ip (.reg flag) := by
  rcases h with rfl | rfl
  · simp [shorten, compound]
  · by_cases heq : flag = ip
    · simp [shorten, compound, heq]
    · simp [shorten, compound, heq, BinOp.isCommutative]

namespace Stmt.Lifted

variable {ip : Reg} {s : Stmt}

theorem isStructured (h : s.Lifted ip) : s.isStructured = false := by
  cases h with
  | store op _ _ _ => cases op <;> rfl
  | jump _ => rfl
  | skip _ hs => rcases hs with rfl | rfl <;> rfl
  | halt => rfl

theorem lt_of_mem_targets (h : s.Lifted ip) {t : Nat} (ht : t ∈ s.targets) : t < 2 ^ 63 := by
  cases h with
  | store op _ _ _ => cases op <;> cases ht
  | jump hlt =>
    rw [Stmt.targets, List.mem_singleton] at ht
    rwa [ht]
  | skip _ hs => rcases hs with rfl | rfl <;> cases ht
  | halt => cases ht

/-- Comparisons are lifted with their two operators only. -/
theorem op_of_compare {cond : Cond} {dest : Reg} (h : s.Lifted ip) (hs : s = .compare cond dest) :
    cond.op = .gt ∨ cond.op = .eq := by
  cases h with
  | store op _ _ _ => cases op <;> cases hs <;> simp
  | jump _ => cases hs
  | skip _ hskip => rcases hskip with rfl | rfl <;> cases hs
  | halt => cases hs

/-- What is written as an update of the pointer was lifted as a skip. -/
theorem isSkip_of_shorten {flag : Reg} (h : s.Lifted ip)
    (hs : Stores.shorten s = .update .add ip (.reg flag)) : s.IsSkip ip flag := by
  have hdest : s.dest? = some ip := by
    rw [← Stores.dest?_shorten, hs]
    rfl
  cases h with
  | store op hd _ _ => cases op <;> exact absurd (Option.some.inj hdest) hd
  | jump _ => cases hdest
  | skip _ hskip =>
    rw [Stores.shorten_of_isSkip hskip] at hs
    cases hs
    exact hskip
  | halt => cases hdest

/-- After shortening, no expression reads the pointer. -/
theorem reads_of_mem_exprs_shorten (h : s.Lifted ip) :
    ∀ e ∈ (Stores.shorten s).exprs, e.reads ip = false := by
  -- a shorter statement computes no more than the longer one did
  have shortened (hexprs : ∀ e ∈ s.exprs, e.reads ip = false) :
      ∀ e ∈ (Stores.shorten s).exprs, e.reads ip = false := by
    rcases Stores.shorten_cases s with heq | ⟨op, dest, value, value', rfl, heq, -, hreads⟩
    · rwa [heq]
    · have hvalue := hexprs value (by simp [Stmt.exprs])
      rw [hreads ip, Bool.or_eq_false_iff] at hvalue
      rw [heq]
      simpa [Stmt.exprs] using hvalue.2
  cases h with
  | store op _ ha hb =>
    refine shortened ?_
    cases op <;>
      simp [Instruction.store, Stmt.exprs, Cond.toExpr, Expr.reads, ha, hb]
  | jump _ =>
    intro e he
    cases he
  | skip hflag hs =>
    rw [Stores.shorten_of_isSkip hs]
    simpa [Stmt.exprs, Expr.reads] using hflag.symm
  | halt =>
    intro e he
    cases he

end Stmt.Lifted

namespace Program

variable {p : Program} {code : Code}

theorem exists_lift_of_mem (h : p.lift = .ok code) {s : Stmt} (hs : s ∈ code) :
    ∃ i ∈ p.instructions, ∃ line, i.lift p.ip line = .ok s := by
  obtain ⟨line, hline⟩ := List.mem_iff_getElem?.mp hs
  have hlt : line < p.instructions.size := by
    have := (List.getElem?_eq_some_iff.mp hline).1
    rwa [length_of_lift h] at this
  obtain ⟨s', hs', hlift⟩ := getElem?_of_lift h (Array.getElem?_eq_getElem hlt)
  rw [hline] at hs'
  cases hs'
  exact ⟨_, Array.getElem_mem hlt, line, hlift⟩

theorem lifted_of_mem (h : p.lift = .ok code) {s : Stmt} (hs : s ∈ code) : s.Lifted p.ip := by
  obtain ⟨i, -, line, hi⟩ := exists_lift_of_mem h hs
  exact (Instruction.lifted_of_lift hi).1

end Program

/-! ## What no warnings mean -/

/-- No instruction is a product into the pointer. -/
def Program.NoProducts (p : Program) : Prop :=
  ∀ i ∈ p.instructions, ¬(i.opcode = .mulr ∧ Reg.ofOperand? i.c = some p.ip)

namespace Options

variable {p : Program} {lifted : Code}

theorem noProducts_of_endWarnings (h : endWarnings p = []) : p.NoProducts := by
  intro i hi hproduct
  obtain ⟨line, hline⟩ := List.mem_iff_getElem?.mp (Array.mem_toList_iff.mpr hi)
  have hnone := List.filterMap_eq_nil_iff.mp h (i, line)
    (List.mk_mem_zipIdx_iff_getElem?.mpr hline)
  simp only [hproduct, and_self, if_true] at hnone
  cases hnone

theorem deleted_of_storeWarnings (h : Options.storeWarnings {} lifted = []) :
    Stores.deleted lifted = [] := by
  simp only [storeWarnings] at h
  split at h
  · cases h
  · next hcond => simpa using hcond

theorem transfers_of_codeWarnings {ip : Reg} {code : Code} (h : codeWarnings ip code = []) :
    ∀ s ∈ code, s.transfers ip = false := by
  have hjumps : code.countP (Stmt.transfers ip) = 0 := by
    unfold codeWarnings at h
    obtain ⟨hj, -⟩ := List.append_eq_nil_iff.mp h
    split at hj
    · assumption
    · cases hj
  intro s hs
  simpa using List.countP_eq_zero.mp hjumps s hs

end Options

/-! ## Every skip was fused first -/

namespace Code

variable {ip : Reg}

theorem foldFirst?_foldAll (p : Pattern) (code : Code) :
    p.foldFirst? ip (p.foldAll ip code) = none := by
  cases h : p.foldFirst? ip code with
  | none => rw [Pattern.foldAll_of_none h, h]
  | some code' =>
    have hlt := Pattern.length_lt_of_foldFirst? h
    rw [Pattern.foldAll_of_some h]
    exact foldFirst?_foldAll p code'
termination_by code.length

theorem recover_foldAll_ifElse (code : Code) :
    Code.recover ip (Pattern.ifElse.foldAll ip code) = Code.recover ip code := by
  cases h : Pattern.ifElse.foldFirst? ip code with
  | none => rw [Pattern.foldAll_of_none h]
  | some code' =>
    have hlt := Pattern.length_lt_of_foldFirst? h
    rw [Pattern.foldAll_of_some h, recover_of_some (Recover.step?_of_foldFirst?_ifElse h)]
    exact recover_foldAll_ifElse code'
termination_by code.length

theorem guarded_of_foldAll (code : Code) (hg : Guarded ip (Pattern.ifElse.foldAll ip code)) :
    Guarded ip code := by
  cases h : Pattern.ifElse.foldFirst? ip code with
  | none => rwa [Pattern.foldAll_of_none h] at hg
  | some code' =>
    have hlt := Pattern.length_lt_of_foldFirst? h
    obtain ⟨line, cond, flag, target, hp, hcode'⟩ := exists_skipAt_of_foldFirst? h
    rw [Pattern.foldAll_of_some h] at hg
    refine hp.guarded_of_apply ?_
    rw [← hcode']
    exact guarded_of_foldAll code' hg
termination_by code.length

theorem halt_not_mem_flows_foldAll_ifElse (code : Code) (hhalt : .halt ∉ Code.flows code) :
    .halt ∉ Code.flows (Pattern.ifElse.foldAll ip code) := by
  cases h : Pattern.ifElse.foldFirst? ip code with
  | none => rwa [Pattern.foldAll_of_none h]
  | some code' =>
    have hlt := Pattern.length_lt_of_foldFirst? h
    obtain ⟨line, cond, flag, target, hp, hcode'⟩ := exists_skipAt_of_foldFirst? h
    rw [Pattern.foldAll_of_some h]
    refine halt_not_mem_flows_foldAll_ifElse code' ?_
    rw [hcode']
    exact Fold.halt_not_mem_flows_apply (by simp [Fold.fusion, Stmt.flows]) hhalt
termination_by code.length

/-- **If no skip is left in recovered code, every skip was in its place before the first fold**, and
none was left when the fusions were done. -/
theorem guarded_of_recover {code : Code}
    (hplain : ∀ s ∈ Code.recover ip code, s.writesPointer ip = false) :
    Guarded ip code ∧
      ∀ s ∈ Pattern.ifElse.foldAll ip code, s.writesPointer ip = false := by
  have hnone : Pattern.ifElse.find? ip (Pattern.ifElse.foldAll ip code) = none :=
    Option.map_eq_none_iff.mp (foldFirst?_foldAll .ifElse code)
  rw [← recover_foldAll_ifElse] at hplain
  have hfused := plain_of_recover _ hnone hplain
  refine ⟨guarded_of_foldAll code fun line s hs hw ↦ ?_, hfused⟩
  rw [hfused s (List.mem_of_getElem? hs)] at hw
  cases hw

/-- From code whose skips can all be fused to recovered code: no run takes more steps, and the
registers that are read at the end are the same. -/
theorem ends_recover_of_fusible {code : Code} {outputs : List Reg} (hf : Fusible ip code)
    (hdead : FlagsDead ip outputs code) (hhalt : .halt ∉ Code.flows code) {r r' : Registers}
    {n : Nat} (he : Ends ip code 0 r n r') :
    ∃ m q', m ≤ n ∧ Ends ip (Code.recover ip code) 0 r m q' ∧
      ∀ i ∈ outputs, i ≠ ip → r'.get i = q'.get i := by
  obtain ⟨m₁, q₁, hm₁, he₁, hagree⟩ := ends_foldAll_ifElse code hf hdead he
  obtain ⟨m₂, hm₂, he₂⟩ := ends_recover True _ hf.foldAll_ifElse.1
    (fun _ ↦ halt_not_mem_flows_foldAll_ifElse code hhalt) he₁
  rw [recover_foldAll_ifElse] at he₂
  exact ⟨m₂, q₁, Nat.le_trans (hm₂ trivial) hm₁, he₂, fun i hi hne ↦ hagree i hne fun _ ↦ hi⟩

theorem ends_of_recover_of_fusible {code : Code} {outputs : List Reg} (hf : Fusible ip code)
    (hdead : FlagsDead ip outputs code) {r q' : Registers} {m : Nat}
    (he : Ends ip (Code.recover ip code) 0 r m q') : ∃ n r', Ends ip code 0 r n r' := by
  rw [← recover_foldAll_ifElse] at he
  obtain ⟨m₁, he₁⟩ := ends_of_recover _ hf.foldAll_ifElse.1 he
  exact ends_of_foldAll_ifElse code hf hdead he₁

end Code

/-! ## The machine and lifted code -/

namespace Program

variable {p : Program} {code : Code}

theorem NoProducts.productsEnd (h : p.NoProducts) (budget : Nat) (q : Registers) :
    p.ProductsEnd budget q :=
  fun _ _ _ _ _ _ i hi hproduct ↦ absurd hproduct (h i (Array.mem_of_getElem? hi))

theorem NoProducts.halt_not_mem_flows (h : p.NoProducts) (hlift : p.lift = .ok code) :
    .halt ∉ Code.flows (code.map Stores.shorten) := by
  rw [Code.flows_eq_flatMap]
  intro hmem
  obtain ⟨s', hs', hmem⟩ := List.mem_flatMap.mp hmem
  obtain ⟨s, hs, rfl⟩ := List.mem_map.mp hs'
  obtain ⟨i, hi, line, hlifted⟩ := exists_lift_of_mem hlift hs
  obtain ⟨hl, hhalt⟩ := Instruction.lifted_of_lift hlifted
  rw [Stores.flows_shorten] at hmem
  refine h i hi (hhalt ?_)
  cases hl with
  | store op _ _ _ => cases op <;> cases hmem
  | jump _ => simp [Stmt.flows] at hmem
  | skip _ hskip => rcases hskip with rfl | rfl <;> cases hmem
  | halt => rfl

theorem ends_lift_of_runWithin (hsize : p.size < 2 ^ 63) (hp : p.NoProducts)
    (hlift : p.lift = .ok code) {r q : Registers} (hr : r.get p.ip = 0) {budget left : Nat}
    (h : p.runWithin budget r = some (q, left)) :
    ∃ n r', budget = n + left ∧ Code.Ends p.ip code 0 r n r' ∧ q.AgreeOff p.ip r' := by
  have hsame := sameEnd_runWithin_lift hsize hlift hr (hp.productsEnd budget r)
  rw [h] at hsame
  generalize hrun : Code.runWithin p.ip code budget r = lifted at hsame
  cases hsame with
  | done hagree =>
    obtain ⟨n, hn, he⟩ := Code.runWithin_eq_done_iff.mp hrun
    exact ⟨n, _, hn, he, hagree⟩

theorem exists_runWithin_of_ends_lift (hsize : p.size < 2 ^ 63) (hp : p.NoProducts)
    (hlift : p.lift = .ok code) {r r' : Registers} (hr : r.get p.ip = 0) {n : Nat}
    (h : Code.Ends p.ip code 0 r n r') : ∃ q, p.runWithin n r = some (q, 0) := by
  have hsame := sameEnd_runWithin_lift hsize hlift hr (hp.productsEnd n r)
  have hdone : Code.runWithin p.ip code n r = .done () r' 0 :=
    Code.runWithin_eq_done_iff.mpr ⟨n, rfl, h⟩
  rw [hdone] at hsame
  generalize hrun : p.runWithin n r = machine at hsame
  cases hsame with
  | done hagree => exact ⟨_, rfl⟩

/-! ## Shortened lifted code -/

/-- In lifted code, the flag of every comparison that a skip by it and a jump follow is not live
behind the jump, nor where the jump goes. At the end register 0 is read. -/
def FlagsDead (p : Program) : Prop :=
  ∀ code, p.lift = .ok code → ∀ (line : Nat) (cond : Cond) (flag : Reg) (s : Stmt) (target : Nat),
    code[line]? = some (.compare cond flag) → code[line + 1]? = some s → s.IsSkip p.ip flag →
    code[line + 2]? = some (.goto target) →
      ¬Code.Live p.ip [0] code flag (line + 3) ∧ ¬Code.Live p.ip [0] code flag target

theorem FlagsDead.map_shorten (h : p.FlagsDead) (hlift : p.lift = .ok code) :
    Code.FlagsDead p.ip [0] (code.map Stores.shorten) := by
  intro line cond flag target hp
  obtain ⟨hcompare, hskip, hjump, -⟩ := hp
  rw [List.getElem?_map] at hcompare hskip hjump
  obtain ⟨s₀, hs₀, heq₀⟩ := Option.map_eq_some_iff.mp hcompare
  obtain ⟨s₁, hs₁, heq₁⟩ := Option.map_eq_some_iff.mp hskip
  obtain ⟨s₂, hs₂, heq₂⟩ := Option.map_eq_some_iff.mp hjump
  rw [Stores.eq_of_shorten heq₀ nofun] at hs₀
  rw [Stores.eq_of_shorten heq₂ nofun] at hs₂
  have hisSkip := (lifted_of_mem hlift (List.mem_of_getElem? hs₁)).isSkip_of_shorten heq₁
  obtain ⟨h₁, h₂⟩ := h code hlift line cond flag s₁ target hs₀ hs₁ hisSkip hs₂
  exact ⟨fun hlive ↦ h₁ (Stores.live_of_map_shorten hlive),
    fun hlive ↦ h₂ (Stores.live_of_map_shorten hlive)⟩

theorem fusible_map_shorten (hsize : p.size ≤ 2 ^ 63 - 1) (hlift : p.lift = .ok code)
    (hg : Code.Guarded p.ip (code.map Stores.shorten)) :
    Code.Fusible p.ip (code.map Stores.shorten) where
  flat := by
    intro s' hs'
    obtain ⟨s, hs, rfl⟩ := List.mem_map.mp hs'
    rw [Stores.isStructured_shorten, (lifted_of_mem hlift hs).isStructured]
  short := by
    rw [List.length_map, length_of_lift hlift]
    exact hsize
  guarded := hg
  pointerFree := by
    intro s' hs'
    obtain ⟨s, hs, rfl⟩ := List.mem_map.mp hs'
    exact (lifted_of_mem hlift hs).reads_of_mem_exprs_shorten
  compares := by
    intro line cond flag target hp
    have hcompare := hp.compare
    rw [List.getElem?_map] at hcompare
    obtain ⟨s, hs, heq⟩ := Option.map_eq_some_iff.mp hcompare
    exact (lifted_of_mem hlift (List.mem_of_getElem? hs)).op_of_compare
      (Stores.eq_of_shorten heq nofun)

theorem lt_of_mem_targets (hlift : p.lift = .ok code) :
    ∀ t ∈ Code.targets (code.map Stores.shorten), t < UInt64.size := by
  intro t ht
  rw [Code.targets_eq_flatMap] at ht
  obtain ⟨s', hs', ht⟩ := List.mem_flatMap.mp ht
  obtain ⟨s, hs, rfl⟩ := List.mem_map.mp hs'
  rw [Stores.targets_shorten] at ht
  have hlt := (lifted_of_mem hlift hs).lt_of_mem_targets ht
  exact Nat.lt_of_lt_of_le hlt (by decide)

/-! ## The whole decompilation -/

/-- What an empty list of warnings says about a decompilation under the default options. -/
theorem recovered_of_warnings (hlift : p.lift = .ok code)
    (hwarn : Options.warnings {} p code = []) :
    p.NoProducts ∧
      Options.recovered {} p.ip code = Code.recover p.ip (code.map Stores.shorten) ∧
      ∀ s ∈ Code.recover p.ip (code.map Stores.shorten), s.transfers p.ip = false := by
  unfold Options.warnings at hwarn
  simp only [List.append_eq_nil_iff] at hwarn
  obtain ⟨⟨⟨hend, hstore⟩, hskip⟩, hcode⟩ := hwarn
  -- no store was dropped and no guard was put in, so no line has moved before the folds
  have hcondensed : Options.condensed {} code = code.map Stores.shorten :=
    Stores.condense_preserve_of_deleted (Options.deleted_of_storeWarnings hstore)
  have hinserted : Skips.inserted p.ip (code.map Stores.shorten) = [] := by
    rw [← hcondensed]
    exact List.map_eq_nil_iff.mp hskip
  have hrecovered : Options.recovered {} p.ip code =
      Code.recover p.ip (code.map Stores.shorten) := by
    simp only [Options.recovered, Options.guarded, if_true, hcondensed]
    rw [Skips.guardAll_of_inserted hinserted (lt_of_mem_targets hlift)]
  rw [hrecovered] at hcode
  exact ⟨Options.noProducts_of_endWarnings hend, hrecovered,
    Options.transfers_of_codeWarnings hcode⟩

/-- Machine and decompiled code halt together, the code after no more steps and with the same word
in register 0. -/
theorem halt_together (hsize : p.size ≤ 2 ^ 63 - 1) (hip : p.ip ≠ 0) (hlift : p.lift = .ok code)
    (hwarn : Options.warnings {} p code = []) (hflags : p.FlagsDead) {r : Registers}
    (hr : r.get p.ip = 0) :
    (∀ {budget q left}, p.runWithin budget r = some (q, left) →
      ∃ m r', m + left ≤ budget ∧ Code.Ends p.ip (Options.recovered {} p.ip code) 0 r m r' ∧
        q.get 0 = r'.get 0) ∧
    ∀ {m r'}, Code.Ends p.ip (Options.recovered {} p.ip code) 0 r m r' →
      ∃ n q, p.runWithin n r = some (q, 0) := by
  obtain ⟨hp, hrecovered, hquiet⟩ := recovered_of_warnings hlift hwarn
  have hsize' : p.size < 2 ^ 63 := by omega
  -- recovered code has no skips, so each of them was fused
  obtain ⟨hg, -⟩ := Code.guarded_of_recover fun s hs ↦ Stmt.writesPointer_eq_false (hquiet s hs)
  have hf := fusible_map_shorten hsize hlift hg
  have hdead := hflags.map_shorten hlift
  rw [hrecovered]
  constructor
  · intro budget q left hrun
    obtain ⟨n, r', hn, he, hagree⟩ := ends_lift_of_runWithin hsize' hp hlift hr hrun
    obtain ⟨m, q', hm, he', hout⟩ := Code.ends_recover_of_fusible hf hdead
      (hp.halt_not_mem_flows hlift) (Code.ends_map_shorten_iff.mpr he)
    refine ⟨m, q', by omega, he', ?_⟩
    rw [hagree 0 hip.symm, hout 0 (by simp) hip.symm]
  · intro m r' he
    obtain ⟨n, q', he'⟩ := Code.ends_of_recover_of_fusible hf hdead he
    obtain ⟨q, hq⟩ :=
      exists_runWithin_of_ends_lift hsize' hp hlift hr (Code.ends_map_shorten_iff.mp he')
    exact ⟨n, q, hq⟩

/-- **A decompilation without warnings is faithful**, if the flags of comparisons are not live where
control comes out of their skips. Verification never finds a difference, from whatever registers and
under whatever limit; whenever the machine halts within the limit, so does the decompiled code,
after no more steps and with the same word in register 0, and verification succeeds; and the
machine halts, given enough steps, exactly when the decompiled code does. -/
theorem verify_of_no_warnings {d : Decompilation} (hsize : p.size ≤ 2 ^ 63 - 1) (hip : p.ip ≠ 0)
    (hd : p.decompile {} = .ok d) (hwarn : d.warnings = []) (hflags : p.FlagsDead)
    (r : Registers) :
    (∀ o, p.verify o d r ≠ .ok false) ∧
    (∀ o e, p.run o.stepLimit (p.startFile r) = .ok e → p.verify o d r = .ok true) ∧
    (∀ limit e, p.run limit (p.startFile r) = .ok e →
      ∃ e', Code.run d.ip d.code limit (p.startFile r) = .ok e' ∧
        e.registers.get 0 = e'.registers.get 0 ∧ e'.steps ≤ e.steps) ∧
    ((∃ budget q left, p.runWithin budget (p.startFile r) = some (q, left)) ↔
      ∃ r', Code.HaltsWith d.ip d.code (p.startFile r) r') := by
  obtain ⟨code, hlift, rfl⟩ : ∃ code, p.lift = .ok code ∧ d = .ofLifted {} p code := by
    unfold decompile at hd
    cases hl : p.lift with
    | error e =>
      rw [hl] at hd
      cases hd
    | ok code =>
      rw [hl] at hd
      exact ⟨code, rfl, (Except.ok.inj hd).symm⟩
  have hr : (p.startFile r).get p.ip = 0 := Registers.get_set_self r p.ip 0
  obtain ⟨hforth, hback⟩ := halt_together hsize hip hlift hwarn hflags hr
  have hverify (o : Options) : p.verify o (.ofLifted {} p code) r = do
      let expected ← p.run o.stepLimit (p.startFile r)
      let actual ← Code.run p.ip (Options.recovered {} p.ip code) o.stepLimit (p.startFile r)
      return expected.registers.get 0 == actual.registers.get 0 := by
    rw [verify, if_neg (by simpa [Decompilation.ofLifted] using hip)]
    rfl
  have hsame : ∀ limit e, p.run limit (p.startFile r) = .ok e →
      ∃ e', Code.run p.ip (Options.recovered {} p.ip code) limit (p.startFile r) = .ok e' ∧
        e.registers.get 0 = e'.registers.get 0 ∧ e'.steps ≤ e.steps := by
    intro limit e hrun
    cases hm : p.runWithin limit.budget (p.startFile r) with
    | none =>
      rw [run, hm] at hrun
      cases hrun
    | some qleft =>
      obtain ⟨q, left⟩ := qleft
      rw [run, hm] at hrun
      cases hrun
      obtain ⟨m, r', hle, he, hzero⟩ := hforth hm
      exact ⟨⟨r', m⟩, Code.run_eq_ok_iff.mpr ⟨Nat.le_of_add_right_le hle, he⟩, hzero,
        Nat.le_sub_of_add_le hle⟩
  have htrue : ∀ o e, p.run o.stepLimit (p.startFile r) = .ok e →
      p.verify o (.ofLifted {} p code) r = .ok true := by
    intro o e hrun
    obtain ⟨e', hrun', hzero, -⟩ := hsame o.stepLimit e hrun
    rw [hverify, hrun, hrun']
    simp [hzero, bind, Except.bind, pure, Except.pure]
  refine ⟨fun o hfalse ↦ ?_, htrue, hsame, ?_⟩
  · cases hrun : p.run o.stepLimit (p.startFile r) with
    | error err =>
      rw [hverify, hrun] at hfalse
      cases hfalse
    | ok e =>
      rw [htrue o e hrun] at hfalse
      cases hfalse
  · simp only [Code.haltsWith_iff]
    constructor
    · rintro ⟨budget, q, left, hm⟩
      obtain ⟨m, r', -, he, -⟩ := hforth hm
      exact ⟨r', m, he⟩
    · rintro ⟨r', m, he⟩
      obtain ⟨n, q, hm⟩ := hback he
      exact ⟨n, q, 0, hm⟩

/-- Counts register 1 up to four in a loop that a comparison, a skip and a jump close, and copies it
to register 0. -/
def countLoop : Program :=
  ⟨5, #[⟨.addi, 1, 1, 1⟩, ⟨.gtri, 1, 3, 2⟩, ⟨.addr, 5, 2, 5⟩, ⟨.seti, -1, 0, 5⟩, ⟨.setr, 1, 0, 0⟩],
    by decide⟩

/-- The lifted code of `countLoop`. -/
def countLoopLifted : Code :=
  [.assign 1 (.bin .add (.reg 1) (.lit 1)), .compare ⟨.gt, .reg 1, .lit 3⟩ 2,
    .assign 5 (.bin .add (.reg 5) (.reg 2)), .goto 0, .assign 0 (.reg 1)]

theorem lift_countLoop : countLoop.lift = .ok countLoopLifted := rfl

theorem recovered_countLoop : Options.recovered {} 5 countLoopLifted =
    [.doUntil ⟨.gt, .reg 1, .lit 3⟩ [.update .add 1 (.lit 1)], .assign 0 (.reg 1)] := by
  have hfused : Recover.step? 5 (Options.guarded {} 5 countLoopLifted) = some (.ifElse,
      [.update .add 1 (.lit 1), .branch ⟨.gt, .reg 1, .lit 3⟩ 2 0, .assign 0 (.reg 1)]) := rfl
  have hlooped : Recover.step? 5
      [.update .add 1 (.lit 1), .branch ⟨.gt, .reg 1, .lit 3⟩ 2 0, .assign 0 (.reg 1)] =
        some (.doWhile, [.doUntil ⟨.gt, .reg 1, .lit 3⟩ [.update .add 1 (.lit 1)],
          .assign 0 (.reg 1)]) := rfl
  rw [Options.recovered, if_pos rfl, Code.recover_of_some hfused, Code.recover_of_some hlooped,
    Code.recover_of_none rfl]

theorem warnings_countLoop : Options.warnings {} countLoop countLoopLifted = [] := by
  have hcode : Options.codeWarnings 5 (Options.recovered {} 5 countLoopLifted) = [] := by
    rw [recovered_countLoop]
    simp [Options.codeWarnings, Options.exitLines, Code.exits, Code.targets, Stmt.targets,
      Stmt.transfers, Code.transfers, List.eraseReps, List.eraseRepsBy]
  rw [Options.warnings, show countLoop.ip = 5 from rfl, hcode]
  rfl

theorem flagsDead_countLoop : countLoop.FlagsDead := by
  intro code hlift line cond flag s target hcompare hskip hisSkip hjump
  rw [lift_countLoop] at hlift
  cases hlift
  match line with
  | 1 =>
    cases hcompare
    cases hjump
    have hclosed : Code.closed 5 [0] countLoopLifted 2 [0, 1, 4, 5] = true := by decide
    exact ⟨Code.not_live_of_closed hclosed (by decide), Code.not_live_of_closed hclosed (by decide)⟩
  | 0 | 2 | 3 | 4 => cases hcompare
  | line + 5 => cases hcompare

theorem verify_countLoop :
    ∃ d, countLoop.decompile {} = .ok d ∧ d.warnings = [] ∧
      countLoop.verify { stepLimit := some 20 } d ⟨#v[7, 0, 0, 0, 0, 3]⟩ = .ok true ∧
      ∃ e, Code.run d.ip d.code (some 20) ⟨#v[7, 0, 0, 0, 0, 0]⟩ = .ok e ∧
        e.registers.get 0 = 4 ∧ e.steps ≤ 16 := by
  refine ⟨.ofLifted {} countLoop countLoopLifted, rfl, warnings_countLoop, ?_⟩
  obtain ⟨-, hverify, hsame, -⟩ := verify_of_no_warnings (by decide) (by decide) rfl
    warnings_countLoop flagsDead_countLoop ⟨#v[7, 0, 0, 0, 0, 3]⟩
  obtain ⟨e, hrun, hzero, hsteps⟩ := hsame (some 20) ⟨⟨#v[4, 4, 1, 0, 0, 5]⟩, 16⟩ rfl
  exact ⟨hverify { stepLimit := some 20 } ⟨⟨#v[4, 4, 1, 0, 0, 5]⟩, 16⟩ rfl, e, hrun, hzero.symm,
    hsteps⟩

end Program

end Unjump
