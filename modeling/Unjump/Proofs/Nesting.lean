import Unjump.Decompile
import Unjump.Proofs.Faithful
import Unjump.Proofs.Guarding

/-!
# Decompiled code is well nested

An assignment to the pointer has a meaning only at a line, so a run that meets one inside a body is
at fault. Folding puts statements into bodies, and the folds do not all look equally deep: the body
of an `ifThen` is asked only whether it is itself such an assignment, those of loops are asked at
every depth. `Stmt.WellNested` is what bodies have in common all the same, and every fold keeps it
(`Pattern.wellNested_of_find?`), because what a fold puts into a body stood on a line before and
was well nested there.

## No faults

Well-nested statements are never at fault (`Stmt.WellNested.faultless`). The argument goes along the
derivation of `WellNested`, with a rule for each way in which runs are put together, as for larger
budgets.
-/

namespace Unjump

/-! ## Bodies without assignments to the pointer -/

/-- At every depth, an `ifThen` has a body of exactly one statement, which is no assignment to the
pointer; a loop transfers control to no line, at whatever depth, and a `doUntil` has something to
repeat; and no loop counts the pointer up. -/
inductive Stmt.WellNested (ip : Reg) : Stmt → Prop
  | flat {s : Stmt} (hs : s.isStructured = false) : WellNested ip s
  | ifThen {s : Stmt} (cond : Cond) (hw : s.writesPointer ip = false) (h : WellNested ip s) :
    WellNested ip (.ifThen cond [s])
  | doUntil {body : List Stmt} (cond : Cond) (hne : body ≠ [])
    (hquiet : Code.transfers ip body = false) (h : ∀ s ∈ body, WellNested ip s) :
    WellNested ip (.doUntil cond body)
  | forUntil {var : Reg} {body : List Stmt} (init : Expr) (cond : Cond) (hvar : var ≠ ip)
    (hquiet : Code.transfers ip body = false) (h : ∀ s ∈ body, WellNested ip s) :
    WellNested ip (.forUntil var init cond body)

/-! ## Runs without faults -/

/-- Whatever it is run on, it is not at fault. -/
def Faultless {α : Type} (f : Registers → Nat → Outcome α) : Prop := ∀ r n, f r n ≠ .fault

namespace Faultless

variable {α β : Type}

theorem of_done (a : Registers → α) (change : Registers → Registers) :
    Faultless fun r n ↦ .done (a r) (change r) n :=
  fun _ _ ↦ nofun

theorem bind {f : Registers → Nat → Outcome α} {g : α → Registers → Nat → Outcome β}
    (hf : Faultless f) (hg : ∀ a, Faultless (g a)) : Faultless fun r n ↦ (f r n).bind g := by
  intro r n
  show (f r n).bind g ≠ .fault
  cases ho : f r n with
  | done a r' left => exact hg a r' left
  | exhausted => exact nofun
  | fault => exact absurd ho (hf r n)

theorem andThen {f g : Registers → Nat → Outcome Flow} (hf : Faultless f) (hg : Faultless g) :
    Faultless fun r n ↦ (f r n).andThen g := by
  refine hf.bind fun flow ↦ ?_
  cases flow with
  | next => exact hg
  | goto t => exact of_done (fun _ ↦ _) id
  | halt => exact of_done (fun _ ↦ _) id

theorem afterTick {f : Registers → Nat → Outcome α} (hf : Faultless f) :
    Faultless (Unjump.afterTick f) := by
  rintro r (_ | n)
  · exact nofun
  · exact hf r n

theorem afterRound {f : Registers → Nat → Outcome Flow} (hf : Faultless f)
    (stop : Registers → Bool) : Faultless (Unjump.afterRound stop f) := by
  intro r n
  by_cases hs : stop r
  · simp [Unjump.afterRound, hs]
  · cases n with
    | zero => simp [Unjump.afterRound, hs]
    | succ n =>
      simp only [Unjump.afterRound, hs]
      exact hf r n

theorem repeatUntil {body : Registers → Nat → Outcome Flow} (hb : Faultless body)
    (stop : Registers → Bool) (rounds : Nat) : Faultless (Unjump.repeatUntil body stop rounds) := by
  induction rounds with
  | zero => exact hb.andThen (afterRound (f := fun _ _ ↦ .exhausted) (fun _ _ ↦ nofun) stop)
  | succ rounds ih => exact hb.andThen (ih.afterRound stop)

end Faultless

theorem Code.faultless_exec {ip : Reg} {body : List Stmt}
    (hw : ∀ s ∈ body, s.writesPointer ip = false) (h : ∀ s ∈ body, Faultless (s.exec ip)) :
    Faultless (Code.exec ip body) := by
  induction body with
  | nil => exact Faultless.of_done (fun _ ↦ _) id
  | cons s rest ih =>
    rw [List.forall_mem_cons] at hw h
    intro r n
    rw [Code.exec, hw.1, if_neg Bool.false_ne_true]
    exact h.1.andThen (ih hw.2 h.2) r n

theorem Code.writesPointer_of_transfers {ip : Reg} {body : List Stmt}
    (h : Code.transfers ip body = false) : ∀ s ∈ body, s.writesPointer ip = false := by
  intro s hs
  rw [Code.transfers_eq_any, List.any_eq_false] at h
  exact Stmt.writesPointer_eq_false (Bool.eq_false_iff.mpr (h s hs))

namespace Stmt

variable {ip : Reg}

theorem faultless_of_flat {s : Stmt} (h : s.isStructured = false) : Faultless (s.exec ip) := by
  intro r n
  cases n with
  | zero =>
    rw [Stmt.exec]
    exact nofun
  | succ n =>
    cases s with
    | ifThen | doUntil | forUntil => cases h
    | _ =>
      rw [Stmt.exec]
      exact nofun

theorem faultless_ifThen {cond : Cond} {body : List Stmt} (h : Faultless (Code.exec ip body)) :
    Faultless ((ifThen cond body).exec ip) := by
  rw [exec_ifThen]
  refine .afterTick fun r n ↦ ?_
  split
  · exact h r n
  · exact nofun

theorem faultless_doUntil {cond : Cond} {body : List Stmt} (h : Faultless (Code.exec ip body)) :
    Faultless ((doUntil cond body).exec ip) := by
  rw [exec_doUntil]
  exact .afterTick fun r n ↦ h.repeatUntil cond.holds n r n

theorem faultless_forUntil {var : Reg} {init : Expr} {cond : Cond} {body : List Stmt}
    (h : Faultless (Code.exec ip body)) : Faultless ((forUntil var init cond body).exec ip) := by
  have hcounted : Faultless (countedBody ip var body) :=
    h.andThen (.of_done (fun _ ↦ Flow.next) fun r ↦ r.set var (r.get var + 1))
  rw [exec_forUntil]
  exact .afterTick fun r n ↦ hcounted.repeatUntil cond.holds n _ n

/-- **A well-nested statement is never at fault.** -/
theorem WellNested.faultless {s : Stmt} (h : s.WellNested ip) : Faultless (s.exec ip) := by
  induction h with
  | flat hs => exact faultless_of_flat hs
  | ifThen cond hw _ ih =>
    exact faultless_ifThen (Code.faultless_exec (by simpa using hw) (by simpa using ih))
  | doUntil cond _ hquiet _ ih =>
    exact faultless_doUntil (Code.faultless_exec (Code.writesPointer_of_transfers hquiet) ih)
  | forUntil init cond _ hquiet _ ih =>
    exact faultless_forUntil (Code.faultless_exec (Code.writesPointer_of_transfers hquiet) ih)

end Stmt

namespace Code

variable {ip : Reg}

theorem faultless_runFrom {fetch : Nat → Option Stmt}
    (h : ∀ line s, fetch line = some s → Faultless (s.exec ip)) (rounds line : Nat) :
    Faultless (runFrom ip fetch rounds line) := by
  induction rounds generalizing line with
  | zero =>
    intro r n
    rw [runFrom]
    cases fetch line <;>
      · intro hfault
        cases hfault
  | succ rounds ih =>
    intro r n
    rw [runFrom]
    cases hs : fetch line with
    | none => exact Faultless.of_done (fun _ ↦ ()) id r n
    | some s =>
      have hexec := h line s hs
      have hline : Faultless (s.execAt ip line) := by
        intro r n
        unfold Stmt.execAt
        split
        · exact hexec.bind (fun _ ↦ .of_done (fun r ↦ (r.get ip + 1).line?) id) _ n
        · refine hexec.bind (fun flow ↦ ?_) r n
          cases flow <;> exact .of_done (fun _ ↦ _) id
      refine hline.bind (fun next? ↦ ?_) r n
      cases next? with
      | none => exact .of_done (fun _ ↦ _) id
      | some next => exact ih next

/-- Code of well-nested statements runs without a runtime error. -/
theorem run_ne_runtime {code : Code} (h : ∀ s ∈ code, s.WellNested ip) (limit : StepLimit)
    (r : Registers) (reason : String) : Code.run ip code limit r ≠ .error (.runtime reason) := by
  have hrun : Code.runWithin ip code limit.budget r ≠ .fault := by
    rw [runWithin_eq]
    exact faultless_runFrom (fun line s hs ↦ (h s (List.mem_of_getElem? hs)).faultless) _ 0 r _
  unfold Code.run
  cases ho : Code.runWithin ip code limit.budget r with
  | done _ r' left => exact nofun
  | exhausted => exact nofun
  | fault => exact absurd ho hrun

end Code

/-! ## Folds keep code well nested -/

mutual

theorem Stmt.transfers_mapTargets (f : Nat → Nat) (ip : Reg) (s : Stmt) :
    (s.mapTargets f).transfers ip = s.transfers ip := by
  cases s with
  | ifThen cond body => exact Code.transfers_mapTargets f ip body
  | doUntil cond body => exact Code.transfers_mapTargets f ip body
  | forUntil var init cond body => exact Code.transfers_mapTargets f ip body
  | _ => rfl

theorem Code.transfers_mapTargets (f : Nat → Nat) (ip : Reg) (code : List Stmt) :
    Code.transfers ip (Code.mapTargets f code) = Code.transfers ip code := by
  cases code with
  | nil => rfl
  | cons s rest =>
    rw [Code.mapTargets, Code.transfers, Code.transfers, Stmt.transfers_mapTargets f ip s,
      Code.transfers_mapTargets f ip rest]

end

namespace Stmt.WellNested

variable {ip : Reg}

/-- Which lines are meant has nothing to do with it. -/
theorem mapTargets {s : Stmt} (h : s.WellNested ip) (f : Nat → Nat) :
    (s.mapTargets f).WellNested ip := by
  have bodies {body : List Stmt} (ih : ∀ s ∈ body, (s.mapTargets f).WellNested ip) :
      ∀ s ∈ Code.mapTargets f body, s.WellNested ip := by
    rw [Code.mapTargets_eq_map]
    simpa using ih
  induction h with
  | flat hs => exact .flat (by rw [isStructured_mapTargets, hs])
  | ifThen cond hw _ ih => exact .ifThen cond (by rw [writesPointer_mapTargets, hw]) ih
  | doUntil cond hne hquiet _ ih =>
    refine .doUntil cond ?_ (by rw [Code.transfers_mapTargets, hquiet]) (bodies ih)
    rwa [ne_eq, Code.mapTargets_eq_map, List.map_eq_nil_iff]
  | forUntil init cond hvar hquiet _ ih =>
    exact .forUntil init cond hvar (by rw [Code.transfers_mapTargets, hquiet]) (bodies ih)

end Stmt.WellNested

namespace Pattern

variable {ip : Reg} {code : Code} {f : Fold}

/-- **What a fold puts in is well nested, if what it folds was.** -/
theorem wellNested_of_find? {p : Pattern} (hf : p.find? ip code = some f)
    (h : ∀ s ∈ code, s.WellNested ip) : f.stmt.WellNested ip := by
  obtain ⟨line, -, hat⟩ := exists_of_firstFrom hf
  rw [Nat.zero_add] at hat
  cases p with
  | ifElse =>
    obtain ⟨cond, flag, target, -, rfl⟩ := Code.ifElseAt_eq_some_iff.mp hat
    exact .flat rfl
  | singleIf =>
    obtain ⟨cond, s, -, hs, hw, -, rfl⟩ := singleIf_shape hat
    exact .ifThen cond hw (h s (List.mem_of_getElem? hs))
  | forLoop =>
    obtain ⟨var, init, cond, body, hvar, -, hloop, hquiet, -, rfl⟩ := forLoop_shape hat
    -- the loop that the fold takes apart was well nested
    cases h _ (List.mem_of_getElem? hloop) with
    | flat hs => cases hs
    | doUntil _ _ _ hbody =>
      rw [Code.transfers_eq_any, List.any_append, ← Code.transfers_eq_any,
        Bool.or_eq_false_iff] at hquiet
      exact .forUntil init cond hvar hquiet.1 fun s hs ↦ hbody s (List.mem_append_left _ hs)
  | doWhile =>
    obtain ⟨cond, head, body, hlt, hblock, hlen, -, hquiet, -, rfl⟩ := doWhile_shape hat
    refine .doUntil cond ?_ hquiet fun s hs ↦ ?_
    · rintro rfl
      rw [List.length_nil] at hlen
      omega
    · obtain ⟨i, hi⟩ := List.mem_iff_getElem?.mp hs
      exact h s (List.mem_of_getElem? (hblock i s hi))

end Pattern

/-- What no fold takes away from code, recovering does not. -/
theorem Code.recover_induction {ip : Reg} {P : Code → Prop}
    (hfold : ∀ {code p f}, Pattern.find? ip code p = some f → P code → P (f.apply code))
    (code : Code) (h : P code) : P (Code.recover ip code) := by
  cases hs : Recover.step? ip code with
  | none => rwa [recover_of_none hs]
  | some pc =>
    obtain ⟨p, code'⟩ := pc
    have hlt := Recover.length_lt_of_step? hs
    obtain ⟨f, hf, rfl⟩ := Option.map_eq_some_iff.mp (Recover.foldFirst?_of_step? hs)
    rw [recover_of_some hs]
    exact recover_induction hfold _ (hfold hf h)
termination_by code.length

theorem Code.wellNested_recover {ip : Reg} {code : Code} (h : ∀ s ∈ code, s.WellNested ip) :
    ∀ s ∈ Code.recover ip code, s.WellNested ip := by
  refine recover_induction (P := fun code ↦ ∀ s ∈ code, s.WellNested ip) (fun hf h s hs ↦ ?_) code h
  obtain ⟨s', rfl, rfl | hs'⟩ := Fold.exists_of_mem_apply hs
  · exact (Pattern.wellNested_of_find? hf h).mapTargets _
  · exact (h s' hs').mapTargets _

/-! ## The stages before are flat -/

namespace Stores

/-- What is kept is a statement of the code, written shorter. -/
theorem exists_of_mem_scan {known : Known} {code : Code} {s : Stmt}
    (h : some s ∈ scan known code) : ∃ s₀ ∈ code, s = shorten s₀ := by
  induction code generalizing known with
  | nil => cases h
  | cons s₀ rest ih =>
    have hscan : scan known (s₀ :: rest) = (visit known s₀).1 :: scan (visit known s₀).2 rest := rfl
    rw [hscan, List.mem_cons] at h
    rcases h with h | h
    · have hs := visit_fst_of_isSome (show (visit known s₀).1.isSome by rw [← h]; rfl)
      rw [← h] at hs
      exact ⟨s₀, List.mem_cons_self, Option.some.inj hs⟩
    · obtain ⟨s', hs', heq⟩ := ih h
      exact ⟨s', List.mem_cons_of_mem s₀ hs', heq⟩

theorem exists_of_mem_kept {code : Code} {s : Stmt} (h : s ∈ (scan .nothing code).filterMap id) :
    ∃ s₀ ∈ code, s = shorten s₀ := by
  obtain ⟨s?, hs?, heq⟩ := List.mem_filterMap.mp h
  rw [show s? = some s from heq] at hs?
  exact exists_of_mem_scan hs?

theorem exists_of_mem_condense {policy : TargetPolicy} {code : Code} {s : Stmt}
    (h : s ∈ condense policy code) : ∃ s₀ ∈ code, ∃ g, s = (shorten s₀).mapTargets g := by
  cases policy with
  | preserve =>
    obtain ⟨s₀, hs₀, rfl⟩ := exists_of_mem_kept h
    exact ⟨s₀, hs₀, id, (Stmt.mapTargets_eq_self _ fun _ _ ↦ rfl).symm⟩
  | renumber =>
    rw [condense, Code.mapTargets_eq_map] at h
    obtain ⟨s', hs', rfl⟩ := List.mem_map.mp h
    obtain ⟨s₀, hs₀, rfl⟩ := exists_of_mem_kept hs'
    exact ⟨s₀, hs₀, _, rfl⟩

/-- Targets stay or move up. -/
theorem le_of_mem_targets_condense {policy : TargetPolicy} {code : Code} {t : Nat}
    (h : t ∈ Code.targets (condense policy code)) : ∃ t₀ ∈ Code.targets code, t ≤ t₀ := by
  have kept {t : Nat} (ht : t ∈ Code.targets ((scan .nothing code).filterMap id)) :
      t ∈ Code.targets code := by
    rw [Code.targets_eq_flatMap, List.mem_flatMap] at ht ⊢
    obtain ⟨s, hs, ht⟩ := ht
    obtain ⟨s₀, hs₀, rfl⟩ := exists_of_mem_kept hs
    exact ⟨s₀, hs₀, targets_shorten s₀ ▸ ht⟩
  cases policy with
  | preserve => exact ⟨t, kept h, Nat.le_refl t⟩
  | renumber =>
    rw [condense, Code.targets_mapTargets] at h
    obtain ⟨t₀, ht₀, rfl⟩ := List.mem_map.mp h
    exact ⟨t₀, kept ht₀, Nat.sub_le t₀ _⟩

end Stores

namespace Options

theorem flat_condensed (o : Options) {lifted : Code} (h : ∀ s ∈ lifted, s.isStructured = false) :
    ∀ s ∈ o.condensed lifted, s.isStructured = false := by
  intro s hs
  unfold condensed at hs
  split at hs
  · obtain ⟨s₀, hs₀, g, rfl⟩ := Stores.exists_of_mem_condense hs
    rw [Stmt.isStructured_mapTargets, Stores.isStructured_shorten, h s₀ hs₀]
  · exact h s hs

theorem flat_guarded (o : Options) (ip : Reg) {lifted : Code}
    (h : ∀ s ∈ lifted, s.isStructured = false) :
    ∀ s ∈ o.guarded ip lifted, s.isStructured = false := by
  have hcondensed := o.flat_condensed h
  intro s hs
  unfold guarded at hs
  split at hs
  · rcases Skips.exists_of_mem_guardAll hs with ⟨s₀, hs₀, rfl⟩ | ⟨r, -, rfl⟩
    · rw [Stmt.isStructured_mapTargets, hcondensed s₀ hs₀]
    · rfl
  · exact hcondensed s hs

theorem wellNested_recovered (o : Options) {ip : Reg} {lifted : Code}
    (h : ∀ s ∈ lifted, s.isStructured = false) : ∀ s ∈ o.recovered ip lifted, s.WellNested ip := by
  have hguarded : ∀ s ∈ o.guarded ip lifted, s.WellNested ip :=
    fun s hs ↦ .flat (o.flat_guarded ip h s hs)
  unfold recovered
  split
  · exact Code.wellNested_recover hguarded
  · exact hguarded

end Options

namespace Program

theorem exists_lift_of_decompile {p : Program} {o : Options} {d : Decompilation}
    (h : p.decompile o = .ok d) : ∃ code, p.lift = .ok code ∧ d = .ofLifted o p code := by
  unfold decompile at h
  cases hl : p.lift with
  | error e =>
    rw [hl] at h
    cases h
  | ok code =>
    rw [hl] at h
    exact ⟨code, rfl, (Except.ok.inj h).symm⟩

/-- **Decompiled code is well nested, whatever the options**, and so running it never meets an
assignment to the pointer inside a body, from whatever registers and under whatever limit. -/
theorem decompile_wellNested {p : Program} {o : Options} {d : Decompilation}
    (hd : p.decompile o = .ok d) :
    (∀ s ∈ d.code, s.WellNested d.ip) ∧
      ∀ limit r reason, Code.run d.ip d.code limit r ≠ .error (.runtime reason) := by
  obtain ⟨code, hlift, rfl⟩ := exists_lift_of_decompile hd
  have hnested : ∀ s ∈ o.recovered p.ip code, s.WellNested p.ip :=
    o.wellNested_recovered fun s hs ↦ (lifted_of_mem hlift hs).isStructured
  exact ⟨hnested, fun limit r reason ↦ Code.run_ne_runtime hnested limit r reason⟩

/-- An `ifThen` around a skip is not well nested: a run that comes to it is at fault. -/
example : Code.run 5 [.ifThen ⟨.eq, .lit 1, .lit 1⟩ [.update .add 5 (.reg 1)]] none
    ⟨#v[0, 0, 0, 0, 0, 0]⟩ = .error Code.pointerInBody := rfl

theorem decompile_wellNested_countLoop :
    ∃ d, countLoop.decompile {} = .ok d ∧ (∀ s ∈ d.code, s.WellNested 5) ∧
      ∀ reason, Code.run 5 d.code none ⟨#v[7, 0, 0, 0, 0, 3]⟩ ≠ .error (.runtime reason) :=
  have h := decompile_wellNested (p := countLoop) (o := {}) rfl
  ⟨_, rfl, h.1, h.2 none _⟩

end Program

end Unjump
