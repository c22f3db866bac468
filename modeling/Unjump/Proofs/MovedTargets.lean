import Unjump.Proofs.Tracking

/-!
# Decompilations that move targets along

If targets move along when stores are dropped, dropping is no reason for a warning, and a
decompilation is meant to do what the program does wherever its assumptions hold
(`Program.Assumptions`). It does, for code that the passes and folds leave in order: lifted code
that is orderly (`Code.Orderly`), and folds none of which is made directly behind a skip
(`Recover.Clear`). The stages are put together here. The machine takes fused code along to its end
(`Program.Tracks.endsByFlags`), and from there on the other folds change nothing but the pointer
(`Code.endsByFlags_recover`).

## What is not in order

None of this follows from the assumptions. The pass that drops stores goes through the code from top
to bottom and takes no notice of where control comes in, so a word that it takes for stored may not
have been. The program `Program.jumpPastStore` meets the assumptions, and its decompilation ends
with another word in register 0 than the machine.
-/

namespace Unjump

/-! ## Room for the guards -/

theorem Pattern.length_foldAll_le (ip : Reg) (p : Pattern) (code : Code) :
    (p.foldAll ip code).length ≤ code.length := by
  cases hfold : p.foldFirst? ip code with
  | none => exact Nat.le_of_eq (by rw [foldAll_of_none hfold])
  | some code' =>
    have hlt := length_lt_of_foldFirst? hfold
    rw [foldAll_of_some hfold]
    exact Nat.le_trans (length_foldAll_le ip p code') (Nat.le_of_lt hlt)
termination_by code.length

/-- There is at most one guard for every line. -/
theorem Skips.length_guardAll_le (ip : Reg) (code : Code) :
    (guardAll ip code).length ≤ 2 * code.length := by
  have hend := @getElem?_guardAll_of_none ip code _ (List.getElem?_eq_none_iff.mpr (Nat.le_refl _))
  have hle := (Lines.below_le Option.isSome (unguarded ip code) code.length).1
  rw [List.getElem?_eq_none_iff, shifted, inserted] at hend
  omega

namespace Code

variable {ip : Reg} {code : Code}

theorem length_prepared_le (ip : Reg) (code : Code) :
    (prepared ip code).length ≤ 2 * code.length :=
  Nat.le_trans (Skips.length_guardAll_le ip _)
    (Nat.mul_le_mul_left 2 (Stores.length_condense_le .renumber code))

/-! ## Prepared code -/

/-- A target goes where its line goes. -/
theorem moved_mem_targets (hlifted : ∀ s ∈ code, s.Lifted ip) (hsize : code.length < 2 ^ 62)
    {t : Nat} (ht : t ∈ Code.targets code) : moved ip code t ∈ Code.targets (prepared ip code) := by
  obtain ⟨n, s, hs, hmem⟩ := mem_targets_iff.mp ht
  have hkept : n ∉ Stores.deleted code := by
    intro hdel
    obtain ⟨i, e, hs', -⟩ := Stores.exists_repeats hdel
    rw [hs] at hs'
    cases hs'
    cases hmem
  have hw : s.writesPointer ip = false := by
    cases hw : s.writesPointer ip with
    | false => rfl
    | true =>
      have hl := hlifted s (List.mem_of_getElem? hs)
      obtain ⟨x, -, rfl | rfl⟩ := hl.isSkip_of_writesPointer hw <;> cases hmem
  refine mem_targets_iff.mpr ⟨_, _,
    getElem?_prepared hsize (lt_of_mem_targets hlifted) hs hkept (guardOf?_eq_none hs hkept hw), ?_⟩
  rw [Stmt.targets_mapTargets, Stores.targets_shorten]
  exact List.mem_map_of_mem hmem

/-- No expression of prepared code reads the pointer. -/
theorem pointerFree_prepared (hlifted : ∀ s ∈ code, s.Lifted ip) :
    ∀ s ∈ prepared ip code, s.PointerFree ip := by
  have condensed : ∀ s ∈ Stores.condense .renumber code, s.PointerFree ip := by
    intro s hs
    obtain ⟨s', hs', g, rfl⟩ := Stores.exists_of_mem_condense hs
    have hl := hlifted s' hs'
    refine Stmt.PointerFree.mapTargets (.of_flat ?_ hl.reads_of_mem_exprs_shorten) _
    rw [Stores.isStructured_shorten, hl.isStructured]
  intro s hs
  rcases Skips.exists_of_mem_guardAll hs with ⟨s', hs', rfl⟩ | ⟨x, hx, rfl⟩
  · exact (condensed s' hs').mapTargets _
  · -- the guard reads what the skip reads
    have hread := (condensed _ hx).exprs (.reg x) List.mem_cons_self
    exact .of_flat rfl (by simpa [Skips.guardOf, Stmt.exprs, Cond.toExpr, Expr.reads] using hread)

end Code

/-! ## The whole decompilation -/

namespace Program

variable {p : Program} {code : Code} {r : Registers}

/-- What becomes of lifted code when all fusions are made. -/
theorem exists_fusedAs (hsize : p.size < 2 ^ 62) (hlift : p.lift = .ok code)
    (ho : code.Orderly p.ip) (hclear : Recover.Clear p.ip (code.prepared p.ip)) :
    ∃ ρ E, p.FusedAs code (Pattern.ifElse.foldAll p.ip (code.prepared p.ip)) ρ E ∧ E 0 ∧ ρ 0 = 0 ∧
      Recover.Clear p.ip (Pattern.ifElse.foldAll p.ip (code.prepared p.ip)) := by
  have hlifted : ∀ s ∈ code, s.Lifted p.ip := fun s hs ↦ lifted_of_mem hlift hs
  have hlen : code.length < 2 ^ 62 := by rwa [length_of_lift hlift]
  obtain ⟨τ, E, hfused, hclear'⟩ := Code.exists_fusedTo hclear
  refine ⟨fun n ↦ τ (code.moved p.ip n), fun n ↦ E (code.moved p.ip n),
    ⟨hsize, hlift, ho, fun n hn ↦ ho.covers hlifted hlen hfused hn, fun t ht ↦ ?_,
      fun line s hs ↦ ?_⟩, ?_, ?_, hclear'⟩
  · exact (hfused.targets _ (Code.moved_mem_targets hlifted hlen ht)).1
  · have hlt := (List.getElem?_eq_some_iff.mp hs).1
    have hfold := Pattern.length_foldAll_le p.ip .ifElse (code.prepared p.ip)
    have hprep := Code.length_prepared_le p.ip code
    omega
  · simp only [Code.moved_zero]
    exact hfused.start.1
  · simp only [Code.moved_zero, hfused.start.2]

/-- Where the machine halts, recovered code ends with the same word in register 0. -/
theorem haltsWith_of_orderly (hsize : p.size < 2 ^ 62) (hip : p.ip ≠ 0) (hlift : p.lift = .ok code)
    (ho : code.Orderly p.ip) (hclear : Recover.Clear p.ip (code.prepared p.ip))
    (hr : r.get p.ip = 0) {budget left : Nat} (ha : p.Assumptions budget r) {last : Registers}
    (hrun : p.runWithin budget r = some (last, left)) :
    ∃ r', Code.HaltsWith p.ip (Code.recover p.ip (code.prepared p.ip)) r r' ∧
      last.get 0 = r'.get 0 := by
  obtain ⟨ρ, E, hf, hE, hρ, hclear'⟩ := exists_fusedAs hsize hlift ho hclear
  have htracks : p.Tracks code E budget 0 r r last := by
    refine ⟨⟨by rw [hr]; rfl, ha, left, hrun⟩, hE, fun i _ ↦ .inl rfl, fun k d i e _ hlt ↦ ?_⟩
    exact absurd hlt (Nat.not_lt_zero k)
  obtain ⟨r₁, he₁, hzero₁⟩ := htracks.endsByFlags hf hip
  rw [hρ] at he₁
  obtain ⟨r₂, he₂, hagree⟩ := Code.endsByFlags_recover hclear'
    (Option.map_eq_none_iff.mp (Code.foldFirst?_foldAll .ifElse _))
    (Pattern.pointerFree_foldAll .ifElse _ (Code.pointerFree_prepared fun s hs ↦
      lifted_of_mem hlift hs)) he₁
  rw [Code.recover_foldAll_ifElse] at he₂
  exact ⟨r₂, Code.haltsWith_iff.mpr he₂.ends, hzero₁.trans (hagree 0 hip.symm)⟩

/-- **A decompilation that moves targets along is faithful where its assumptions hold**, if lifted
code is orderly and no fold is made directly behind a skip. There has to be room for a guard before
every line. -/
theorem verify_of_orderly {d : Decompilation} (hsize : p.size < 2 ^ 62) (hip : p.ip ≠ 0)
    (hlift : p.lift = .ok code) (hd : p.decompile { targetPolicy := .renumber } = .ok d)
    (ho : code.Orderly p.ip) (hclear : Recover.Clear p.ip (code.prepared p.ip)) (o : Options)
    (r : Registers) (ha : p.Assumptions o.stepLimit.budget (p.startFile r)) :
    p.verify o d r ≠ .ok false ∧
    ∀ e, p.run o.stepLimit (p.startFile r) = .ok e →
      ∃ r', Code.HaltsWith d.ip d.code (p.startFile r) r' ∧ e.registers.get 0 = r'.get 0 := by
  have hd : d = .ofLifted { targetPolicy := .renumber } p code := by
    rw [decompile, hlift] at hd
    exact (Except.ok.inj hd).symm
  subst hd
  have hhalts (e : Execution) (hrun : p.run o.stepLimit (p.startFile r) = .ok e) :
      ∃ r', Code.HaltsWith p.ip (Code.recover p.ip (code.prepared p.ip)) (p.startFile r) r' ∧
        e.registers.get 0 = r'.get 0 := by
    cases hm : p.runWithin o.stepLimit.budget (p.startFile r) with
    | none =>
      rw [run, hm] at hrun
      cases hrun
    | some lastleft =>
      rw [run, hm] at hrun
      cases hrun
      exact haltsWith_of_orderly hsize hip hlift ho hclear (Registers.get_set_self r p.ip 0) ha hm
  refine ⟨fun hfalse ↦ ?_, hhalts⟩
  rw [verify, if_neg (by simpa [Decompilation.ofLifted] using hip)] at hfalse
  obtain ⟨e, hrun, hfalse⟩ := exists_ok_of_bind hfalse
  obtain ⟨e', hrun', hfalse⟩ := exists_ok_of_bind hfalse
  -- the code halts in one way only
  obtain ⟨r', hends, hzero⟩ := hhalts e hrun
  obtain ⟨n, hends⟩ := Code.haltsWith_iff.mp hends
  obtain ⟨-, heq⟩ := (Code.run_eq_ok_iff.mp hrun').2.unique hends
  have hsame : (e.registers.get 0 == e'.registers.get 0) = true := by
    rw [hzero, heq, beq_self_eq_true]
  rw [hsame] at hfalse
  cases hfalse

/-- Stores a word twice, skips a jump by a flag, and skips a line by register 3. -/
def skipTwice : Program :=
  ⟨5, #[⟨.seti, 5, 0, 1⟩, ⟨.seti, 5, 0, 1⟩, ⟨.gtri, 1, 3, 2⟩, ⟨.addr, 5, 2, 5⟩, ⟨.seti, 6, 0, 5⟩,
    ⟨.addr, 1, 1, 0⟩, ⟨.addr, 5, 3, 5⟩, ⟨.addi, 0, 1, 0⟩, ⟨.addi, 0, 2, 0⟩], by decide⟩

/-- The lifted code of `skipTwice`. -/
def skipTwiceLifted : Code :=
  [.assign 1 (.lit 5), .assign 1 (.lit 5), .compare ⟨.gt, .reg 1, .lit 3⟩ 2,
    .assign 5 (.bin .add (.reg 5) (.reg 2)), .goto 7, .assign 0 (.bin .add (.reg 1) (.reg 1)),
    .assign 5 (.bin .add (.reg 5) (.reg 3)), .assign 0 (.bin .add (.reg 0) (.lit 1)),
    .assign 0 (.bin .add (.reg 0) (.lit 2))]

theorem lift_skipTwice : skipTwice.lift = .ok skipTwiceLifted := rfl

theorem orderly_skipTwice : skipTwiceLifted.Orderly 5 := by
  have hdeleted : Stores.deleted skipTwiceLifted = [1] := rfl
  -- the skips are at lines 3 and 6
  have hskips {n : Nat} {s : Stmt} (hs : skipTwiceLifted[n]? = some s)
      (hw : s.writesPointer 5 = true) : n = 3 ∨ n = 6 := by
    match n with
    | 3 | 6 => simp
    | 0 | 1 | 2 | 4 | 5 | 7 | 8 =>
      cases hs
      cases hw
    | n + 9 => cases hs
  refine ⟨fun k d i e hrep line hentered hbetween ↦ ?_, fun n s hs hwhy hmem ↦ ?_,
    fun n s s' hs hw hs' ↦ ?_⟩
  · have hd : d = 1 := by simpa [hdeleted] using hrep.dropped
    rcases hentered with htarget | ⟨n, s, hs, hw, rfl⟩
    · have : line = 7 := by simpa [skipTwiceLifted, Code.targets, Stmt.targets] using htarget
      omega
    · omega
  · have hn : n = 0 := by simpa [hdeleted] using hmem
    subst hn
    cases hs
    rcases hwhy with hwhy | hwhy <;> cases hwhy
  · rcases hskips hs hw with rfl | rfl <;> cases hs' <;> rfl

theorem clear_skipTwice : Recover.Clear 5 (skipTwiceLifted.prepared 5) := by
  refine .fold (p := .ifElse) (f := Fold.fusion 1 ⟨.gt, .reg 1, .lit 3⟩ 7) rfl rfl ?_ (.done rfl)
  rintro ⟨line, s, hline, hs, hw⟩
  have hline : line = 0 := Nat.succ.inj hline
  subst hline
  cases hs
  cases hw

theorem verify_skipTwice :
    ∃ d, skipTwice.decompile { targetPolicy := .renumber } = .ok d ∧
      skipTwice.verify { stepLimit := some 12 } d ⟨#v[0, 0, 0, 0, 0, 0]⟩ ≠ .ok false ∧
      ∃ r', Code.HaltsWith d.ip d.code ⟨#v[0, 0, 0, 0, 0, 0]⟩ r' ∧ r'.get 0 = 13 := by
  refine ⟨.ofLifted { targetPolicy := .renumber } skipTwice skipTwiceLifted, rfl, ?_⟩
  obtain ⟨hverify, hhalts⟩ := verify_of_orderly (by decide) (by decide) lift_skipTwice rfl
    orderly_skipTwice clear_skipTwice { stepLimit := some 12 } ⟨#v[0, 0, 0, 0, 0, 0]⟩
    ⟨by decide, by decide, by decide⟩
  obtain ⟨r', hr', hzero⟩ := hhalts ⟨⟨#v[13, 5, 1, 0, 0, 9]⟩, 8⟩ rfl
  exact ⟨hverify, r', hr', hzero.symm⟩

/-- Jumps past the first of two stores of the same word. -/
def jumpPastStore : Program :=
  ⟨5, #[⟨.seti, 1, 0, 5⟩, ⟨.seti, 5, 0, 0⟩, ⟨.seti, 5, 0, 0⟩], by decide⟩

/-- The assumptions alone are not enough: the second store is dropped because of the first, which
the run does not come to. -/
theorem verify_jumpPastStore :
    ∃ d, jumpPastStore.decompile { targetPolicy := .renumber } = .ok d ∧
      jumpPastStore.Assumptions 10 (jumpPastStore.startFile ⟨#v[0, 0, 0, 0, 0, 0]⟩) ∧
      jumpPastStore.verify { stepLimit := some 10 } d ⟨#v[0, 0, 0, 0, 0, 0]⟩ = .ok false := by
  have hrecovered : Options.recovered { targetPolicy := .renumber } 5
      [.goto 2, .assign 0 (.lit 5), .assign 0 (.lit 5)] = [.goto 2, .assign 0 (.lit 5)] := by
    rw [Options.recovered, if_pos rfl]
    exact Code.recover_of_none rfl
  refine ⟨.ofLifted { targetPolicy := .renumber } jumpPastStore
    [.goto 2, .assign 0 (.lit 5), .assign 0 (.lit 5)], rfl, ⟨by decide, by decide, by decide⟩, ?_⟩
  have hd : Decompilation.code (.ofLifted { targetPolicy := .renumber } jumpPastStore
      [.goto 2, .assign 0 (.lit 5), .assign 0 (.lit 5)]) = [.goto 2, .assign 0 (.lit 5)] :=
    hrecovered
  rw [verify, hd]
  rfl

end Program

end Unjump
