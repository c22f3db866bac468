import Unjump.Proofs.Tracking

/-!
# Dropping stores keeps what code computes

Condensing drops a line that assigns a register to itself, or that repeats an earlier store. Running
such a line changes no register, provided that control came by the earlier store and by all the
lines from there on. So it is enough that no target lies behind the earlier store and at or before
its repetition (`Stores.Undisturbed`), whatever else the code holds, structured statements and
targets inside of their bodies included.

## The simulation

The two codes are at the same register file at all times, and differ in where they are: a line that
is dropped goes where the next line goes. From a line control gets over the dropped lines ahead of
it without changing a register (`Stores.exists_kept`), and at a line that is kept both codes take
the same steps. What carries this along is `Code.Holds`, here of one run and not of two: what was
stored and is to be stored again is still there. Coming from the line before keeps it, and where
control comes in by a target there is nothing to keep.
-/

namespace Unjump

namespace Stores

/-- No target lies between a store, itself left out, and a repetition of it. -/
def Undisturbed (code : Code) : Prop :=
  ∀ s d i e, Repeats code s d i e → ∀ t ∈ Code.targets code, ¬(s < t ∧ t ≤ d)

variable {ip : Reg} {code : Code} {n : Nat} {s : Stmt} {r r' : Registers}

/-- Between a store and its repetition there are assignments only. -/
theorem Repeats.exists_assign {k d : Nat} {i : Reg} {e : Expr} (h : Repeats code k d i e)
    (hk : k ≤ n) (hd : n < d) (hn : n ∉ deleted code) : ∃ j v, code[n]? = some (.assign j v) := by
  rcases Nat.eq_or_lt_of_le hk with rfl | hk
  · exact ⟨i, e, h.store⟩
  · rcases h.plain.2.2 n hk hd with hmem | ⟨j, v, hj, -⟩
    · exact absurd hmem hn
    · exact ⟨j, v, hj⟩

/-- Where control comes in, nothing has to be there. -/
theorem Undisturbed.holds (h : Undisturbed code) {t : Nat} (ht : t ∈ Code.targets code) :
    Code.Holds code t r r :=
  fun k d i e hrep hlt hle ↦ absurd ⟨hlt, hle⟩ (h k d i e hrep t ht)

/-! ## Lines that are dropped -/

/-- A dropped line is an assignment that changes nothing. -/
theorem exists_assign_of_holds (h : Code.Holds code n r r) (hn : n ∈ deleted code) :
    ∃ i e, code[n]? = some (.assign i e) ∧ r.set i (e.eval r) = r := by
  obtain ⟨i, e, hs, hwhy⟩ := exists_repeats hn
  refine ⟨i, e, hs, ?_⟩
  have hval : e.eval r = r.get i := by
    rcases hwhy with rfl | ⟨k, hrep⟩
    · rfl
    · exact (h k n i e hrep hrep.lt (Nat.le_refl n)).1.symm
  rw [hval, Registers.set_get_self]

theorem holds_succ_of_mem (h : Code.Holds code n r r) (hn : n ∈ deleted code) :
    Code.Holds code (n + 1) r r := by
  intro k d i e hrep hlt hle
  have hkn : k ≠ n := fun heq ↦ hrep.kept (heq ▸ hn)
  exact h k d i e hrep (by omega) (Nat.le_of_succ_le hle)

/-- **Control gets over dropped lines to one that is kept, or to the end**, with the same
registers. -/
theorem exists_kept (hplain : ∀ s ∈ code, s.writesPointer ip = false) {n : Nat}
    (h : Code.Holds code n r r) :
    ∃ k m, Code.Reaches ip code n r k m r ∧ Code.Holds code m r r ∧ m ∉ deleted code ∧
      renumber (deleted code) m = renumber (deleted code) n := by
  by_cases hn : n ∈ deleted code
  · obtain ⟨i, e, hs, hset⟩ := exists_assign_of_holds h hn
    have hlt : n < code.length := (List.getElem?_eq_some_iff.mp hs).1
    have hi : i ≠ ip := by
      simpa [Stmt.writesPointer] using hplain _ (List.mem_of_getElem? hs)
    have ht : Takes ((Stmt.assign i e).execAt ip n) r 1 (some (n + 1)) r := by
      simpa only [hset] using Stmt.takes_assign r hi e
    obtain ⟨k, m, hr, hm, hkept, hline⟩ := exists_kept hplain (holds_succ_of_mem h hn)
    exact ⟨1 + k, m, .step hs ht hr, hm, hkept, hline.trans (renumber_succ_of_mem hn)⟩
  · exact ⟨0, n, .refl, h, hn, rfl⟩
termination_by code.length - n

/-! ## Lines that are kept -/

/-- A line that is kept leaves alone what was stored before it, wherever control goes. -/
theorem holds_of_takes (hplain : ∀ s ∈ code, s.writesPointer ip = false)
    (hundisturbed : Undisturbed code) (h : Code.Holds code n r r) (hs : code[n]? = some s)
    (hn : n ∉ deleted code) {k next : Nat} (ht : Takes (s.execAt ip n) r k (some next) r') :
    Code.Holds code next r' r' := by
  have hw := hplain s (List.mem_of_getElem? hs)
  obtain ⟨flow, hnext, hexec⟩ := (takes_execAt_iff hw).mp ht
  match flow, hnext with
  | .goto t, hnext =>
    cases hnext
    exact hundisturbed.holds
      (Code.mem_targets_iff.mpr ⟨n, s, hs, Stmt.mem_targets_of_takes s hexec⟩)
  | .next, hnext =>
    cases hnext
    by_cases hassign : ∃ i e, s = .assign i e
    · obtain ⟨i, e, rfl⟩ := hassign
      have hi : i ≠ ip := by simpa [Stmt.writesPointer] using hw
      obtain ⟨-, -, rfl⟩ := ht.unique (Stmt.takes_assign r hi e)
      refine h.succ_of_kept hs hn (fun j v heq ↦ ?_) (.set r r i _)
      cases heq
      exact Registers.get_set_self r _ _
    · -- no store is repeated across anything else
      intro k d i e hrep hlt hle
      obtain ⟨j, v, hj⟩ := hrep.exists_assign (Nat.lt_succ_iff.mp hlt) hle hn
      rw [hs, Option.some.injEq] at hj
      exact absurd ⟨j, v, hj⟩ hassign

/-- At a line that is kept both codes do the same. -/
theorem takes_condense_iff (hw : s.writesPointer ip = false) (hn : n ∉ deleted code) {k : Nat}
    {next? : Option Nat} :
    Takes (((shorten s).mapTargets (renumber (deleted code))).execAt ip
        (renumber (deleted code) n)) r k next? r' ↔
      ∃ prev?, next? = prev?.map (renumber (deleted code)) ∧ Takes (s.execAt ip n) r k prev? r' := by
  rw [takes_execAt_mapTargets_iff (by rw [writesPointer_shorten, hw]) (renumber_succ_of_not_mem hn),
    execAt_shorten]

/-! ## The simulation -/

/-- The state of condensed code that belongs to a state of the code. -/
structure InStep (code : Code) (line : Nat) (r : Registers) (line' : Nat) (q : Registers) :
    Prop where
  moved : line' = renumber (deleted code) line
  same : q = r
  holds : Code.Holds code line r r

theorem inStep_zero (code : Code) (r : Registers) : InStep code 0 r 0 r where
  moved := (renumber_zero _).symm
  same := rfl
  holds k _ _ _ _ hlt _ := absurd hlt (Nat.not_lt_zero k)

theorem advances_condense (hplain : ∀ s ∈ code, s.writesPointer ip = false)
    (hundisturbed : Undisturbed code) {line line' : Nat} {r q : Registers}
    (h : InStep code line r line' q) :
    Code.Advances ip True code (condense .renumber code) (InStep code) Eq line r line' q := by
  obtain ⟨rfl, rfl, hholds⟩ := h
  intro n r' he
  obtain ⟨k, m, hreach, hm, hkept, hline⟩ := exists_kept hplain hholds
  obtain ⟨n₁, rfl, he₁⟩ := he.of_reaches hreach
  rw [← hline]
  cases hs : code[m]? with
  | none =>
    obtain ⟨rfl, rfl⟩ := he₁.unique (.off hs)
    exact .inl ⟨0, r', .off (getElem?_condense_of_none hs), fun _ ↦ Nat.zero_le _, rfl⟩
  | some s =>
    have hget := getElem?_condense hs hkept
    have hw := hplain s (List.mem_of_getElem? hs)
    rcases he₁.cases_of_some hs with ht | ⟨j, n₂, next, r₁, rfl, ht, he₂⟩
    · have ht' := (takes_condense_iff hw hkept).mpr ⟨none, rfl, ht⟩
      exact .inl ⟨n₁, r', .stop hget ht', fun _ ↦ Nat.le_add_left n₁ k, rfl⟩
    · have ht' := (takes_condense_iff hw hkept).mpr ⟨some next, rfl, ht⟩
      exact .inr ⟨k + j, n₂, next, r₁, j, _, r₁, (Nat.add_assoc k j n₂).symm,
        Nat.add_pos_right k (Stmt.pos_of_takes_execAt ht), he₂, .single hget ht',
        fun _ ↦ Nat.le_add_left j k,
        ⟨rfl, rfl, holds_of_takes hplain hundisturbed hm hs hkept ht⟩⟩

theorem advances_back_condense (hplain : ∀ s ∈ code, s.writesPointer ip = false)
    (hundisturbed : Undisturbed code) {line line' : Nat} {r q : Registers}
    (h : InStep code line r line' q) :
    Code.Advances ip False (condense .renumber code) code
      (fun line' q line r ↦ InStep code line r line' q) Eq line' q line r := by
  obtain ⟨rfl, rfl, hholds⟩ := h
  intro n q' he
  obtain ⟨k, m, hreach, hm, hkept, hline⟩ := exists_kept hplain hholds
  rw [← hline] at he
  cases hs : code[m]? with
  | none =>
    obtain ⟨rfl, rfl⟩ := he.unique (.off (getElem?_condense_of_none hs))
    exact .inl ⟨k + 0, q', hreach.ends (.off hs), False.elim, rfl⟩
  | some s =>
    have hget := getElem?_condense hs hkept
    have hw := hplain s (List.mem_of_getElem? hs)
    rcases he.cases_of_some hget with ht | ⟨j, n₁, next, r₁, rfl, ht, he₁⟩
    · obtain ⟨prev?, hprev, ht'⟩ := (takes_condense_iff hw hkept).mp ht
      rw [Option.map_eq_none_iff.mp hprev.symm] at ht'
      exact .inl ⟨k + n, q', hreach.ends (.stop hs ht'), False.elim, rfl⟩
    · obtain ⟨prev?, hprev, ht'⟩ := (takes_condense_iff hw hkept).mp ht
      obtain ⟨prev, rfl, rfl⟩ := Option.map_eq_some_iff.mp hprev.symm
      exact .inr ⟨j, n₁, _, r₁, k + j, prev, r₁, rfl, Stmt.pos_of_takes_execAt ht, he₁,
        hreach.trans (.single hs ht'), False.elim,
        ⟨rfl, rfl, holds_of_takes hplain hundisturbed hm hs hkept ht'⟩⟩

end Stores

/-! ## Runs -/

/-- **Where no redundant store is entered from the side, dropping stores keeps what code
computes.** A run that halts within a step limit does so afterwards too, with the same registers and
in no more steps, and condensed code halts only where the code did. -/
theorem Code.run_condense {ip : Reg} {code : Code}
    (hplain : ∀ s ∈ code, s.writesPointer ip = false) (hundisturbed : Stores.Undisturbed code)
    (r : Registers) :
    (∀ limit e, Code.run ip code limit r = .ok e →
      ∃ e', Code.run ip (Stores.condense .renumber code) limit r = .ok e' ∧
        e'.registers = e.registers ∧ e'.steps ≤ e.steps) ∧
    ∀ r', HaltsWith ip (Stores.condense .renumber code) r r' → HaltsWith ip code r r' := by
  constructor
  · intro limit e hrun
    obtain ⟨hle, he⟩ := run_eq_ok_iff.mp hrun
    obtain ⟨m, q, he', hm, rfl⟩ :=
      ends_of_advances (Stores.advances_condense hplain hundisturbed) (Stores.inStep_zero code r) he
    have hsteps := hm trivial
    exact ⟨⟨e.registers, m⟩, run_eq_ok_iff.mpr ⟨Nat.le_trans hsteps hle, he'⟩, rfl, hsteps⟩
  · intro r' h
    obtain ⟨n, he⟩ := haltsWith_iff.mp h
    obtain ⟨m, q, he', -, rfl⟩ :=
      ends_of_advances (Stores.advances_back_condense hplain hundisturbed)
        (Stores.inStep_zero code r) he
    exact haltsWith_iff.mpr ⟨m, he'⟩

namespace Stores

/-- Goes back to a copy of a register, and stores the copy again two lines on. The last line stores
a register into itself. -/
def copyTwice : Code :=
  [.assign 1 (.lit 3), .assign 0 (.reg 1), .assign 2 (.lit 4), .assign 0 (.reg 1),
    .update .add 1 (.lit (-1)), .ifThen ⟨.gt, .reg 1, .lit 0⟩ [.goto 1], .assign 0 (.reg 0)]

theorem undisturbed_copyTwice : Undisturbed copyTwice := by
  intro k d i e hrep t ht hbetween
  have ht : t = 1 := by simpa [copyTwice, Code.targets, Stmt.targets] using ht
  have hk : k = 0 := by omega
  have hstore := hrep.store
  have hagain := hrep.again
  -- the first line is stored once only
  subst hk
  cases hstore
  have hdeleted : deleted copyTwice = [3, 6] := rfl
  have hd : d = 3 ∨ d = 6 := by simpa [hdeleted] using hrep.dropped
  rcases hd with rfl | rfl <;> cases hagain

end Stores

theorem Code.run_condense_copyTwice :
    (∃ e, Code.run 5 (Stores.condense .renumber Stores.copyTwice) (some 19)
        ⟨#v[0, 0, 0, 0, 0, 0]⟩ = .ok e ∧
      e.registers = ⟨#v[1, 0, 4, 0, 0, 0]⟩ ∧ e.steps ≤ 19) ∧
    HaltsWith 5 Stores.copyTwice ⟨#v[0, 0, 0, 0, 0, 0]⟩ ⟨#v[1, 0, 4, 0, 0, 0]⟩ := by
  obtain ⟨hforth, hback⟩ := @run_condense 5 _ (by decide)
    Stores.undisturbed_copyTwice ⟨#v[0, 0, 0, 0, 0, 0]⟩
  have hwithin : Code.runWithin 5 Stores.copyTwice 19 ⟨#v[0, 0, 0, 0, 0, 0]⟩ =
      .done () ⟨#v[1, 0, 4, 0, 0, 0]⟩ 0 := by decide +kernel
  have hrun : Code.run 5 Stores.copyTwice (some 19) ⟨#v[0, 0, 0, 0, 0, 0]⟩ =
      .ok ⟨⟨#v[1, 0, 4, 0, 0, 0]⟩, 19⟩ := by
    rw [Code.run, StepLimit.budget, UInt64.toNat_ofNat, hwithin]
    rfl
  have hhalts : HaltsWith 5 (Stores.condense .renumber Stores.copyTwice) ⟨#v[0, 0, 0, 0, 0, 0]⟩
      ⟨#v[1, 0, 4, 0, 0, 0]⟩ := ⟨15, 0, by decide +kernel⟩
  exact ⟨hforth (some 19) _ hrun, hback _ hhalts⟩

end Unjump
