import Unjump.Code.Budget
import Unjump.Proofs.Lifting
import Unjump.Proofs.Rules

/-!
# Step limits are exact

The machine and the code it is lifted to are both run under a limit. A limit is exact if it changes
nothing but whether the run gets to its end: a run that takes `n` steps reports the same under every
limit from `n` on, and that it exceeded the limit under every smaller one.

Both are instances of one fact (`exactLimits_of_halts`). It needs to know of a run that it halts in
one way only, whatever the limit, and that it reports a halt exactly when the limit leaves room for
its steps. What is left is to tell the other reports apart. The machine has only one, and code may
be at fault besides. A fault stays one under larger limits, so a run that halts under some limit is
not at fault under a smaller one.
-/

namespace Unjump

/-! ## The machine -/

namespace Program

variable {p : Program}

theorem after_succ {r r' : Registers} (h : p.step? r = some r') (n : Nat) :
    p.after (n + 1) r = p.after n r' := by
  rw [after, h, Option.bind_some]

/-- The machine halts after some number of steps. -/
def Halts (p : Program) (r : Registers) (n : Nat) (q : Registers) : Prop :=
  p.after n r = some q ∧ p.step? q = none

theorem runWithin_cases (p : Program) (n : Nat) (r : Registers) :
    (∃ m left q, n = m + left ∧ p.Halts r m q ∧ p.runWithin n r = some (q, left)) ∨
      ∃ q, p.after n r = some q ∧ p.step? q ≠ none ∧ p.runWithin n r = none := by
  induction n generalizing r with
  | zero =>
    rcases hs : p.step? r with _ | r'
    · exact .inl ⟨0, 0, r, rfl, ⟨rfl, hs⟩, runWithin_of_none hs 0⟩
    · exact .inr ⟨r, rfl, by simp [hs], runWithin_zero_of_some hs⟩
  | succ n ih =>
    rcases hs : p.step? r with _ | r'
    · exact .inl ⟨0, n + 1, r, by omega, ⟨rfl, hs⟩, runWithin_of_none hs (n + 1)⟩
    · rw [runWithin_of_some hs, after_succ hs]
      rcases ih r' with ⟨m, left, q, hn, ⟨ha, hq⟩, hrun⟩ | h
      · exact .inl ⟨m + 1, left, q, by omega, ⟨(after_succ hs m).trans ha, hq⟩, hrun⟩
      · exact .inr h

theorem Halts.runWithin_eq {r q : Registers} {m : Nat} (h : p.Halts r m q) (left : Nat) :
    p.runWithin (m + left) r = some (q, left) := by
  induction m generalizing r with
  | zero =>
    obtain ⟨hr, hq⟩ := h
    obtain rfl : r = q := Option.some.inj hr
    rw [Nat.zero_add, runWithin_of_none hq]
  | succ m ih =>
    obtain ⟨ha, hq⟩ := h
    obtain ⟨r', hs, ha⟩ := Option.bind_eq_some_iff.mp ha
    rw [Nat.add_right_comm, runWithin_of_some hs, ih ⟨ha, hq⟩]

theorem Halts.unique {r q q' : Registers} {m m' : Nat} (h : p.Halts r m q)
    (h' : p.Halts r m' q') : m = m' ∧ q = q' := by
  have hm := h.runWithin_eq m'
  rw [Nat.add_comm, h'.runWithin_eq m] at hm
  cases hm
  exact ⟨rfl, rfl⟩

/-- **The machine halts within a limit, or is still running when it has taken as many steps.** -/
theorem run_cases (p : Program) (limit : StepLimit) (r : Registers) :
    (∃ m q, m ≤ limit.budget ∧ p.Halts r m q ∧ p.run limit r = .ok ⟨q, m⟩) ∨
      ∃ q, p.after limit.budget r = some q ∧ p.step? q ≠ none ∧
        p.run limit r = .error (.limitExceeded limit.budget) := by
  unfold run
  rcases p.runWithin_cases limit.budget r with ⟨m, left, q, hn, hq, hrun⟩ | ⟨q, ha, hq, hrun⟩
  · refine .inl ⟨m, q, by omega, hq, ?_⟩
    rw [hrun, Execution.ofRun, hn, Nat.add_sub_cancel]
  · refine .inr ⟨q, ha, hq, ?_⟩
    rw [hrun, Execution.ofRun]

theorem run_eq_ok_iff {limit : StepLimit} {r : Registers} {e : Execution} :
    p.run limit r = .ok e ↔ e.steps ≤ limit.budget ∧ p.Halts r e.steps e.registers := by
  constructor
  · intro h
    rcases p.run_cases limit r with ⟨m, q, hm, hq, hrun⟩ | ⟨q, -, -, hrun⟩
    · obtain rfl := Except.ok.inj (hrun.symm.trans h)
      exact ⟨hm, hq⟩
    · rw [hrun] at h
      cases h
  · rintro ⟨hle, hq⟩
    have hrun := hq.runWithin_eq (limit.budget - e.steps)
    rw [Nat.add_sub_cancel' hle] at hrun
    rw [run, hrun, Execution.ofRun, Nat.sub_sub_self hle]

end Program

/-! ## Exactness -/

/-- A limit, if there is one, lets a run take `n` steps. -/
def StepLimit.Allows (limit : StepLimit) (n : Nat) : Prop := ∀ m, limit = some m → n ≤ m.toNat

/-- A limit says nothing about a run but whether it gets to its end. -/
structure ExactLimits (run : StepLimit → Except Error Execution) : Prop where
  /-- A run that halts keeps to its limit. -/
  within : ∀ limit e, run limit = .ok e → limit.Allows e.steps
  /-- It halts in the same way under every limit that allows its steps. -/
  enough : ∀ limit e, run limit = .ok e → ∀ limit' : StepLimit, limit'.Allows e.steps →
    run limit' = .ok e
  /-- Every limit that does not is exceeded. -/
  short : ∀ limit e, run limit = .ok e → ∀ m : UInt64, m.toNat < e.steps →
    run (some m) = .error (.limitExceeded m.toNat)
  /-- What has no meaning has none under larger limits. -/
  runtime : ∀ limit why, run limit = .error (.runtime why) → ∀ limit' : StepLimit,
    limit.budget ≤ limit'.budget → run limit' = .error (.runtime why)

theorem StepLimit.allows_of_le {limit : StepLimit} {n : Nat} (h : n ≤ limit.budget) :
    limit.Allows n := by
  rintro m rfl
  exact h

theorem StepLimit.le_budget_of_allows {limit limit' : StepLimit} {n : Nat}
    (h : n ≤ limit.budget) (h' : limit'.Allows n) : n ≤ limit'.budget := by
  rcases limit' with _ | m
  · exact Nat.le_trans h limit.budget_le
  · exact h' m rfl

/-- Limits are exact for whatever halts in one way only, and otherwise exceeds the limit or is at
fault for good. -/
theorem exactLimits_of_halts {run : StepLimit → Except Error Execution}
    (halts : Nat → Registers → Prop)
    (hrun : ∀ limit e, run limit = .ok e ↔ e.steps ≤ limit.budget ∧ halts e.steps e.registers)
    (herr : ∀ limit e, run limit = .error e →
      e = .limitExceeded limit.budget ∨ ∃ why, e = .runtime why)
    (hfault : ∀ limit why, run limit = .error (.runtime why) → ∀ limit' : StepLimit,
      limit.budget ≤ limit'.budget → run limit' = .error (.runtime why))
    (huniq : ∀ n m q q', halts n q → halts m q' → n = m ∧ q = q') : ExactLimits run where
  within limit e h := StepLimit.allows_of_le ((hrun limit e).mp h).1
  enough limit e h limit' h' := by
    obtain ⟨hle, hq⟩ := (hrun limit e).mp h
    exact (hrun limit' e).mpr ⟨StepLimit.le_budget_of_allows hle h', hq⟩
  short limit e h m hm := by
    obtain ⟨hle, hq⟩ := (hrun limit e).mp h
    rcases hs : run (some m) with err | e'
    · rcases herr _ _ hs with rfl | ⟨why, rfl⟩
      · rfl
      · have hbudget : (StepLimit.budget (some m)) ≤ limit.budget :=
          Nat.le_trans (Nat.le_of_lt hm) hle
        rw [hfault _ _ hs limit hbudget] at h
        cases h
    · obtain ⟨hle', hq'⟩ := (hrun _ e').mp hs
      have hsteps := (huniq _ _ _ _ hq' hq).1
      rw [hsteps] at hle'
      exact absurd hm (Nat.not_lt.mpr hle')
  runtime := hfault

theorem Program.exactLimits_run (p : Program) (r : Registers) : ExactLimits (p.run · r) := by
  have herr : ∀ (limit : StepLimit) e, p.run limit r = .error e →
      e = .limitExceeded limit.budget := by
    intro limit e h
    rcases p.run_cases limit r with ⟨m, q, -, -, hrun⟩ | ⟨q, -, -, hrun⟩
    · rw [hrun] at h
      cases h
    · exact (Except.error.inj (hrun.symm.trans h)).symm
  refine exactLimits_of_halts (p.Halts r) (fun limit e ↦ Program.run_eq_ok_iff)
    (fun limit e h ↦ .inl (herr limit e h)) (fun limit why h ↦ ?_)
    fun n m q q' h h' ↦ h.unique h'
  cases herr limit _ h

/-- The report on what code came to under a limit. -/
def Outcome.report (limit : StepLimit) : Outcome Unit → Except Error Execution
  | .done _ r left => .ok ⟨r, limit.budget - left⟩
  | .exhausted => .error (.limitExceeded limit.budget)
  | .fault => .error Code.pointerInBody

namespace Code

theorem run_eq_report (ip : Reg) (code : Code) (limit : StepLimit) (r : Registers) :
    Code.run ip code limit r = (Code.runWithin ip code limit.budget r).report limit := by
  rw [Code.run]
  rcases Code.runWithin ip code limit.budget r with _ | _ | _ <;> rfl

/-- Only a fault is a runtime error. -/
theorem run_eq_runtime_iff {ip : Reg} {code : Code} {limit : StepLimit} {r : Registers}
    {why : String} :
    Code.run ip code limit r = .error (.runtime why) ↔
      Code.runWithin ip code limit.budget r = .fault ∧ Error.runtime why = Code.pointerInBody := by
  rw [run_eq_report]
  rcases Code.runWithin ip code limit.budget r with _ | _ | _ <;>
    simp [Outcome.report, eq_comm]

theorem exactLimits_run (ip : Reg) (code : Code) (r : Registers) :
    ExactLimits (Code.run ip code · r) := by
  refine exactLimits_of_halts (Ends ip code 0 r) (fun limit e ↦ Code.run_eq_ok_iff)
    (fun limit e h ↦ ?_) (fun limit why h limit' hle ↦ ?_) fun n m q q' h h' ↦ h.unique h'
  · rw [run_eq_report] at h
    rcases ho : Code.runWithin ip code limit.budget r with _ | _ | _ <;> rw [ho] at h <;> cases h
    · exact .inl rfl
    · exact .inr ⟨_, rfl⟩
  · obtain ⟨hf, hwhy⟩ := run_eq_runtime_iff.mp h
    refine run_eq_runtime_iff.mpr ⟨?_, hwhy⟩
    obtain ⟨k, hk⟩ := Nat.exists_eq_add_of_le hle
    rw [hk, Code.extends_runWithin ip code r _ k (by simp [hf]), hf]
    rfl

end Code

/-- **Step limits are exact, and every run under a limit returns.** The machine halts within the
limit or is still running when it has taken as many steps. Code comes, by the rules alone, to just
one outcome, and that is what is reported. -/
theorem limits_exact :
    (∀ (p : Program) (r : Registers),
      ExactLimits (p.run · r) ∧
      ∀ m : UInt64,
        (∃ n q, n ≤ m.toNat ∧ p.Halts r n q ∧ p.run (some m) r = .ok ⟨q, n⟩) ∨
        ∃ q, p.after m.toNat r = some q ∧ p.step? q ≠ none ∧
          p.run (some m) r = .error (.limitExceeded m.toNat)) ∧
    ∀ (ip : Reg) (code : Code) (r : Registers),
      ExactLimits (Code.run ip code · r) ∧
      ∀ m : UInt64, ∃ o, (∀ o', Code.ComesTo ip code 0 r m.toNat o' ↔ o' = o) ∧
        Code.run ip code (some m) r = o.report (some m) := by
  refine ⟨fun p r ↦ ⟨p.exactLimits_run r, fun m ↦ p.run_cases (some m) r⟩, fun ip code r ↦
    ⟨Code.exactLimits_run ip code r, fun m ↦ ?_⟩⟩
  exact ⟨_, fun o ↦ Code.comesTo_iff, Code.run_eq_report ip code (some m) r⟩

/-- A machine that halts after two steps, a loop without a body that takes three, and a body that
the run cannot get through. -/
theorem limits_exact_zeros :
    let r : Registers := ⟨#v[0, 0, 0, 0, 0, 0]⟩
    let count : Code := [.forUntil 1 (.lit 0) ⟨.gt, .reg 1, .lit 2⟩ []]
    let skip : Code := [.doUntil ⟨.eq, .lit 0, .lit 0⟩ [.assign 5 (.lit 1)]]
    (Program.squareOut.run none r = .ok ⟨⟨#v[7, 0, 0, 50, 0, 0]⟩, 2⟩ ∧
      Program.squareOut.run (some 1) r = .error (.limitExceeded 1)) ∧
    (Code.run 5 count none r = .ok ⟨⟨#v[0, 3, 0, 0, 0, 0]⟩, 3⟩ ∧
      Code.run 5 count (some 2) r = .error (.limitExceeded 2)) ∧
    Code.run 5 skip none r = .error Code.pointerInBody := by
  intro r count skip
  have machine := (limits_exact.1 Program.squareOut r).1
  have code := fun code ↦ (limits_exact.2 5 code r).1
  have hrun : Program.squareOut.runWithin 2 r = some (⟨#v[7, 0, 0, 50, 0, 0]⟩, 0) := by
    decide +kernel
  have hm : Program.squareOut.run (some 2) r = .ok ⟨⟨#v[7, 0, 0, 50, 0, 0]⟩, 2⟩ :=
    congrArg (Execution.ofRun (some 2)) hrun
  have hc : Code.run 5 count (some 3) r = .ok ⟨⟨#v[0, 3, 0, 0, 0, 0]⟩, 3⟩ := rfl
  have hs : Code.run 5 skip (some 1) r = .error Code.pointerInBody := rfl
  refine ⟨⟨machine.enough _ _ hm none nofun, machine.short _ _ hm 1 (by decide)⟩,
    ⟨(code count).enough _ _ hc none nofun, (code count).short _ _ hc 2 (by decide)⟩,
    (code skip).runtime _ _ hs none (StepLimit.budget_le _)⟩

end Unjump
