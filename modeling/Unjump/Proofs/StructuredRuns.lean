import Unjump.Proofs.Conservation
import Unjump.Proofs.Limits
import Unjump.Proofs.Nesting

/-!
# Structured code runs from top to bottom

Code in which nothing transfers control to a line is one block: running it as the outermost list and
running it as a body come to the same (`Code.runWithin_eq_exec`). As a body it has no lines, so
control goes through its statements in order and leaves them early only by stopping.

Whether a statement transfers control is a question about its text. It says nothing about
comparisons into the pointer or loops that count it up, and need not: outside of assignments the
pointer is a register like any other, and no run looks at it.

## One after the other

A block in two parts is the first part and then the second, unless the first stops the run
(`Code.exec_append`). Under a step limit the second part has what the first has left of it. A run
without a limit is bounded by what the step counter can record, so there the two parts are compared
as long as their steps can be counted together.
-/

namespace Unjump

/-! ## No faults, no jumps -/

mutual

/-- A statement that transfers control to no line is never at fault. -/
theorem Stmt.faultless_of_transfers {ip : Reg} (s : Stmt) (h : s.transfers ip = false) :
    Faultless (s.exec ip) := by
  match s with
  | .ifThen cond body => exact Stmt.faultless_ifThen (Code.faultless_of_transfers body h)
  | .doUntil cond body => exact Stmt.faultless_doUntil (Code.faultless_of_transfers body h)
  | .forUntil var init cond body =>
    exact Stmt.faultless_forUntil (Code.faultless_of_transfers body h)
  | .assign .. | .update .. | .compare .. | .goto _ | .branch .. | .halt =>
    exact Stmt.faultless_of_flat rfl

theorem Code.faultless_of_transfers {ip : Reg} (body : List Stmt)
    (h : Code.transfers ip body = false) : Faultless (Code.exec ip body) := by
  match body with
  | [] => exact Code.faultless_exec nofun nofun
  | s :: rest =>
    rw [Code.transfers, Bool.or_eq_false_iff] at h
    intro r n
    rw [Code.exec, Stmt.writesPointer_eq_false h.1, if_neg Bool.false_ne_true]
    exact (Stmt.faultless_of_transfers s h.1).andThen (Code.faultless_of_transfers rest h.2) r n

end

mutual

theorem Stmt.transfers_of_mem_parts {ip : Reg} {p : Stmt} (s : Stmt) (h : s.transfers ip = false)
    (hp : p ∈ s.parts) : p.transfers ip = false := by
  match s with
  | .ifThen _ body | .doUntil _ body | .forUntil _ _ _ body =>
    rcases List.mem_cons.mp hp with rfl | hp
    · exact h
    · exact Code.transfers_of_mem_parts body h hp
  | .assign .. | .update .. | .compare .. | .goto _ | .branch .. | .halt =>
    rwa [List.mem_singleton.mp hp]

/-- What holds no transfer has none at any depth. -/
theorem Code.transfers_of_mem_parts {ip : Reg} {p : Stmt} (body : List Stmt)
    (h : Code.transfers ip body = false) (hp : p ∈ Code.parts body) : p.transfers ip = false := by
  match body with
  | s :: rest =>
    rw [Code.transfers, Bool.or_eq_false_iff] at h
    rcases List.mem_append.mp hp with hp | hp
    · exact Stmt.transfers_of_mem_parts s h.1 hp
    · exact Code.transfers_of_mem_parts rest h.2 hp

end

/-- Control goes on to the next statement or stops. -/
theorem Stmt.flow_of_transfers {ip : Reg} {s : Stmt} (h : s.transfers ip = false)
    {r r' : Registers} {n left : Nat} {flow : Flow} (hs : s.exec ip r n = .done flow r' left) :
    flow = .next ∨ flow = .halt := by
  rcases flow with _ | t | _
  · exact .inl rfl
  · obtain ⟨m, -, ht⟩ := Stmt.exact_exec ip s r n _ r' left hs
    have hmem := Stmt.mem_targets_of_takes s ht
    rw [Stmt.targets_eq_nil s h] at hmem
    contradiction
  · exact .inr rfl

/-- What a block came to, as a run of the outermost list: it is over, however control left it. -/
def Outcome.ended (o : Outcome Flow) : Outcome Unit := o.bind fun _ r left ↦ .done () r left

namespace Code

variable {ip : Reg} {code : Code}

theorem transfers_of_getElem? (h : Code.transfers ip code = false) {line : Nat} {s : Stmt}
    (hs : code[line]? = some s) : s.transfers ip = false := by
  rw [transfers_eq_any, List.any_eq_false] at h
  exact Bool.eq_false_iff.mpr (h s (List.mem_of_getElem? hs))

/-! ## One block -/

theorem runAt_eq_exec (h : Code.transfers ip code = false) (line : Nat) (r : Registers) (n : Nat) :
    runAt ip code line r n = (Code.exec ip (code.drop line) r n).ended := by
  induction hd : code.drop line generalizing line r n with
  | nil =>
    rw [runAt_of_none (List.getElem?_eq_none_iff.mpr (List.drop_eq_nil_iff.mp hd)), Code.exec]
    rfl
  | cons s rest ih =>
    have hs : code[line]? = some s := by
      rw [← List.head?_drop, hd, List.head?_cons]
    have hrest : code.drop (line + 1) = rest := by
      rw [← List.drop_drop, hd, List.drop_one, List.tail_cons]
    have hquiet := transfers_of_getElem? h hs
    have hw := Stmt.writesPointer_eq_false hquiet
    rw [runAt_of_some hs, Code.exec, Stmt.entry, hw, if_neg Bool.false_ne_true,
      if_neg Bool.false_ne_true]
    rcases ho : s.exec ip r n with ⟨flow, r', left⟩ | _ | _
    · simp only [Stmt.exit?, hw, Bool.false_eq_true, if_false]
      rcases Stmt.flow_of_transfers hquiet ho with rfl | rfl
      · exact ih (line + 1) r' left hrest
      · rfl
    · rfl
    · rfl

/-- **Code without transfers runs as one block.** -/
theorem runWithin_eq_exec (h : Code.transfers ip code = false) (r : Registers) (n : Nat) :
    Code.runWithin ip code n r = (Code.exec ip code r n).ended := by
  rw [runWithin_eq]
  exact runAt_eq_exec h 0 r n

theorem run_ne_runtime_of_transfers (h : Code.transfers ip code = false) (limit : StepLimit)
    (r : Registers) (why : String) : Code.run ip code limit r ≠ .error (.runtime why) := by
  intro hrun
  have hfault := (run_eq_runtime_iff.mp hrun).1
  rw [runWithin_eq_exec h] at hfault
  rcases ho : Code.exec ip code r limit.budget with _ | _ | _
  · rw [ho] at hfault
    contradiction
  · rw [ho] at hfault
    contradiction
  · exact faultless_of_transfers code h r _ ho

/-! ## In order -/

/-- From a line on, control comes to these lines one after the other. -/
inductive Visits (ip : Reg) (code : Code) : Nat → Registers → List Nat → Prop
  | here {line : Nat} {r : Registers} {s : Stmt} (hs : code[line]? = some s) :
    Visits ip code line r [line]
  | step {line line' n : Nat} {r r' : Registers} {s : Stmt} {lines : List Nat}
    (hs : code[line]? = some s) (ht : Takes (s.execAt ip line) r n (some line') r')
    (hv : Visits ip code line' r' lines) : Visits ip code line r (line :: lines)

/-- Control goes on one line further, if it goes on. -/
theorem eq_succ_of_takes (h : Code.transfers ip code = false) {line line' n : Nat} {s : Stmt}
    {r r' : Registers} (hs : code[line]? = some s)
    (ht : Takes (s.execAt ip line) r n (some line') r') :
    line' = line + 1 ∧ Takes (s.exec ip) r n .next r' := by
  have hquiet := transfers_of_getElem? h hs
  obtain ⟨flow, hflow, ht⟩ := (takes_execAt_iff (Stmt.writesPointer_eq_false hquiet)).mp ht
  rcases Stmt.flow_of_transfers hquiet (ht 0) with rfl | rfl
  · exact ⟨Option.some.inj hflow, ht⟩
  · contradiction

/-- **Control comes to the lines in order, to each at most once.** -/
theorem Visits.eq_range' (h : Code.transfers ip code = false) {line : Nat} {r : Registers}
    {lines : List Nat} (hv : Visits ip code line r lines) :
    lines = List.range' line lines.length := by
  induction hv with
  | here hs => rfl
  | step hs ht _ ih =>
    rw [(eq_succ_of_takes h hs ht).1] at ih
    rw [List.length_cons, List.range'_succ, ← ih]

/-! ## One after the other -/

/-- **A block in two parts is the first and then, if control goes on, the second.** -/
theorem exec_append (ip : Reg) (xs ys : Code) (r : Registers) (n : Nat) :
    Code.exec ip (xs ++ ys) r n = (Code.exec ip xs r n).andThen (Code.exec ip ys) := by
  induction xs generalizing r n with
  | nil => rw [List.nil_append, Code.exec, Outcome.andThen_next]
  | cons s rest ih =>
    rw [List.cons_append, Code.exec, Code.exec]
    split
    · rfl
    · rcases s.exec ip r n with ⟨_ | t | _, r', left⟩ | _ | _
      · exact ih r' left
      all_goals rfl

/-- Some statement that control comes to stops the run. -/
def Stops (ip : Reg) (code : Code) (r : Registers) : Prop :=
  ∃ n line r₁ s m r', Reaches ip code 0 r n line r₁ ∧ code[line]? = some s ∧
    Takes (s.exec ip) r₁ m .halt r'

theorem takes_of_reaches (h : Code.transfers ip code = false) {line line' n : Nat}
    {r r' : Registers} (hr : Reaches ip code line r n line' r') :
    ∃ k, line' = line + k ∧ Takes (Code.exec ip ((code.drop line).take k)) r n .next r' := by
  induction hr with
  | refl => exact ⟨0, rfl, takes_nil_iff.mpr ⟨rfl, rfl, rfl⟩⟩
  | @step line _ _ n m _ _ _ s hs ht _ ih =>
    obtain ⟨rfl, hs'⟩ := eq_succ_of_takes h hs ht
    obtain ⟨k, rfl, hrest⟩ := ih
    have hw := Stmt.writesPointer_eq_false (transfers_of_getElem? h hs)
    refine ⟨k + 1, by omega, ?_⟩
    rw [List.drop_eq_getElem?_toList_append (i := line), hs, Option.toList_some,
      List.singleton_append, List.take_succ_cons]
    exact takes_cons_iff.mpr ⟨hw, .inr ⟨n, m, _, rfl, hs', hrest⟩⟩

theorem exists_reaches_of_halt {line n : Nat} {r r' : Registers} {block : List Stmt}
    (hblock : HasBlock code line block) (ht : Takes (Code.exec ip block) r n .halt r') :
    ∃ k line' r₁ s m, Reaches ip code line r k line' r₁ ∧ code[line']? = some s ∧
      Takes (s.exec ip) r₁ m .halt r' := by
  induction block generalizing line r n with
  | nil => exact absurd (takes_nil_iff.mp ht).2.1 nofun
  | cons s rest ih =>
    obtain ⟨hw, ⟨-, hs⟩ | ⟨k, m, r₁, rfl, hs, hrest⟩⟩ := takes_cons_iff.mp ht
    · exact ⟨0, line, r, s, n, .refl, hblock.head, hs⟩
    · obtain ⟨k', line', r₂, s', m', hr, hs', ht'⟩ := ih hblock.tail hrest
      have hstep : Takes (s.execAt ip line) r k (some (line + 1)) r₁ :=
        (takes_execAt_iff hw).mpr ⟨.next, rfl, hs⟩
      exact ⟨k + k', line', r₂, s', m', .step hblock.head hstep hr, hs', ht'⟩

/-- A run is stopped by a statement exactly if the block stops. -/
theorem stops_iff (h : Code.transfers ip code = false) {r : Registers} :
    Stops ip code r ↔ ∃ n r', Takes (Code.exec ip code) r n .halt r' := by
  constructor
  · rintro ⟨n, line, r₁, s, m, r', hr, hs, ht⟩
    obtain ⟨k, rfl, hfirst⟩ := takes_of_reaches h hr
    rw [Nat.zero_add] at hs
    have hw := Stmt.writesPointer_eq_false (transfers_of_getElem? h hs)
    have hlast : Takes (Code.exec ip (code.drop k)) r₁ m .halt r' := by
      rw [List.drop_eq_getElem?_toList_append (i := k), hs, Option.toList_some,
        List.singleton_append]
      exact takes_cons_iff.mpr ⟨hw, .inl ⟨nofun, ht⟩⟩
    refine ⟨n + m, r', ?_⟩
    rw [← List.take_append_drop k code]
    exact takes_append_iff.mpr (.inr ⟨n, m, r₁, rfl, hfirst, hlast⟩)
  · rintro ⟨n, r', ht⟩
    have hblock : HasBlock code 0 code := fun i s hs ↦ by rwa [Nat.zero_add]
    obtain ⟨k, line, r₁, s, m, hr, hs, ht⟩ := exists_reaches_of_halt hblock ht
    exact ⟨k, line, r₁, s, m, r', hr, hs, ht⟩

end Code

/-- What a limit leaves after some steps. Without a limit it is what is left of the counter. -/
def StepLimit.after (limit : StepLimit) (steps : Nat) : StepLimit :=
  some (UInt64.ofNat (limit.budget - steps))

theorem StepLimit.budget_after (limit : StepLimit) (steps : Nat) :
    (limit.after steps).budget = limit.budget - steps := by
  have hle := limit.budget_le
  have hnone : StepLimit.budget none = UInt64.size - 1 := rfl
  have hsize : UInt64.size = 2 ^ 64 := rfl
  exact UInt64.toNat_ofNat_of_lt' (by omega)

/-- The report on a run that goes on with another one: the steps are added, and a limit that was
exceeded is the limit of both. -/
def Execution.followedBy (limit : StepLimit) (e : Execution) :
    Except Error Execution → Except Error Execution
  | .ok e' => .ok ⟨e'.registers, e.steps + e'.steps⟩
  | .error (.limitExceeded _) => .error (.limitExceeded limit.budget)
  | .error why => .error why

theorem Execution.followedBy_eq_ok_iff {limit : StepLimit} {e e'' : Execution}
    {report : Except Error Execution} :
    e.followedBy limit report = .ok e'' ↔
      ∃ e', report = .ok e' ∧ e'' = ⟨e'.registers, e.steps + e'.steps⟩ := by
  rcases report with why | e'
  · cases why <;> simp [followedBy]
  · simp [followedBy, eq_comm]

namespace Code

/-- How a run of `xs ++ ys` is put together from a run of `xs` and a run of `ys`. -/
structure RunsInTurn (ip : Reg) (xs ys : Code) (r : Registers) : Prop where
  /-- Where `xs` stops the run, nothing follows. -/
  stopped : Stops ip xs r → ∀ limit, Code.run ip (xs ++ ys) limit r = Code.run ip xs limit r
  /-- Where `xs` does not get to its end within the limit, the whole does not. -/
  exceeded : ∀ limit e, Code.run ip xs limit r = .error e →
    Code.run ip (xs ++ ys) limit r = .error e
  /-- Else `ys` runs from where `xs` ended, under what is left of the limit. -/
  followed : ¬Stops ip xs r → ∀ limit e, Code.run ip xs limit r = .ok e →
    Code.run ip (xs ++ ys) limit r =
      e.followedBy limit (Code.run ip ys (limit.after e.steps) e.registers)
  /-- Without a limit `ys` has none either, as long as all steps can be counted. -/
  unlimited : ¬Stops ip xs r → ∀ e, Code.run ip xs none r = .ok e → ∀ e'',
    Code.run ip (xs ++ ys) none r = .ok e'' ↔
      ∃ e', Code.run ip ys none e.registers = .ok e' ∧
        e'' = ⟨e'.registers, e.steps + e'.steps⟩ ∧ e.steps + e'.steps < UInt64.size

variable {ip : Reg} {xs ys : Code} {r : Registers}

/-- What the run of the first part comes to decides how the whole goes on. -/
theorem run_append_cases (h : Code.transfers ip (xs ++ ys) = false) (limit : StepLimit) :
    (Code.run ip xs limit r = .error (.limitExceeded limit.budget) ∧
      Code.run ip (xs ++ ys) limit r = .error (.limitExceeded limit.budget)) ∨
    (Stops ip xs r ∧ Code.run ip (xs ++ ys) limit r = Code.run ip xs limit r) ∨
    ∃ e, ¬Stops ip xs r ∧ e.steps ≤ limit.budget ∧ Code.run ip xs limit r = .ok e ∧
      Code.run ip (xs ++ ys) limit r =
        e.followedBy limit (Code.run ip ys (limit.after e.steps) e.registers) := by
  have hparts : Code.transfers ip xs = false ∧ Code.transfers ip ys = false := by
    rwa [transfers_eq_any, List.any_append, Bool.or_eq_false_iff, ← transfers_eq_any,
      ← transfers_eq_any] at h
  obtain ⟨hxs, hys⟩ := hparts
  simp only [run_eq_report, runWithin_eq_exec h, runWithin_eq_exec hxs, runWithin_eq_exec hys,
    exec_append, StepLimit.budget_after]
  rcases ho : Code.exec ip xs r limit.budget with ⟨flow, r₁, left⟩ | _ | _
  · obtain ⟨m, hbudget, ht⟩ := Code.exact_exec ip xs r _ flow r₁ left ho
    have hleft : limit.budget - left = m := by omega
    rcases flow with _ | t | _
    · have hgo : ¬Stops ip xs r := fun hstops ↦ by
        obtain ⟨n, r', ht'⟩ := (stops_iff hxs).mp hstops
        exact absurd (ht.unique ht').2.1 (by simp)
      refine .inr (.inr ⟨⟨r₁, m⟩, hgo, by simp only; omega, ?_, ?_⟩)
      · simp only [Outcome.ended, Outcome.bind, Outcome.report, hleft]
      · simp only [Outcome.andThen_next, show limit.budget - m = left from by omega]
        rcases ho' : Code.exec ip ys r₁ left with ⟨flow', r₂, left'⟩ | _ | _
        · have hle := (Code.exact_exec ip ys).le ho'
          simp only [Outcome.ended, Outcome.bind, Outcome.report, Execution.followedBy,
            StepLimit.budget_after]
          rw [show m + (limit.budget - m - left') = limit.budget - left' from by omega]
        · rfl
        · exact absurd ho' (faultless_of_transfers ys hys r₁ left)
    · have hmem := (goto_mem_flows_iff xs).mp (mem_flows_of_takes xs ht (by simp))
      rw [targets_eq_nil xs hxs] at hmem
      contradiction
    · exact .inr (.inl ⟨(stops_iff hxs).mpr ⟨m, r₁, ht⟩, rfl⟩)
  · exact .inl ⟨rfl, rfl⟩
  · exact absurd ho (faultless_of_transfers xs hxs r _)

theorem runsInTurn (h : Code.transfers ip (xs ++ ys) = false) : RunsInTurn ip xs ys r := by
  have followed : ¬Stops ip xs r → ∀ limit e, Code.run ip xs limit r = .ok e →
      Code.run ip (xs ++ ys) limit r =
        e.followedBy limit (Code.run ip ys (limit.after e.steps) e.registers) := by
    intro hgo limit e he
    rcases run_append_cases (r := r) h limit with ⟨hxs, -⟩ | ⟨hstops, -⟩ | ⟨e', -, -, hxs, hrun⟩
    · rw [hxs] at he
      contradiction
    · exact absurd hstops hgo
    · rw [hxs, Except.ok.injEq] at he
      rwa [he] at hrun
  refine ⟨fun hstops limit ↦ ?_, fun limit e he ↦ ?_, followed, fun hgo e he e'' ↦ ?_⟩
  · rcases run_append_cases (r := r) h limit with ⟨hxs, hrun⟩ | ⟨-, hrun⟩ | ⟨e, hgo, -⟩
    · rw [hxs, hrun]
    · exact hrun
    · exact absurd hstops hgo
  · rcases run_append_cases (r := r) h limit with ⟨hxs, hrun⟩ | ⟨-, hrun⟩ | ⟨e', -, -, hxs, -⟩
    · rwa [hrun, ← hxs]
    · rwa [hrun]
    · rw [hxs] at he
      contradiction
  · have hsteps := (run_eq_ok_iff.mp he).1
    have hsize : StepLimit.budget none = UInt64.size - 1 := rfl
    have hpos : 0 < UInt64.size := by decide
    have hshort (e' : Execution) : Code.run ip ys (StepLimit.after none e.steps) e.registers =
        .ok e' ↔ Code.run ip ys none e.registers = .ok e' ∧ e.steps + e'.steps < UInt64.size := by
      rw [run_eq_ok_iff, run_eq_ok_iff, StepLimit.budget_after]
      constructor
      · rintro ⟨hle, hends⟩
        exact ⟨⟨by omega, hends⟩, by omega⟩
      · rintro ⟨⟨-, hends⟩, hlt⟩
        exact ⟨by omega, hends⟩
    rw [followed hgo none e he, Execution.followedBy_eq_ok_iff]
    simp only [hshort]
    constructor
    · rintro ⟨e', ⟨hys, hlt⟩, heq⟩
      exact ⟨e', hys, heq, hlt⟩
    · rintro ⟨e', hys, heq, hlt⟩
      exact ⟨e', ⟨hys, hlt⟩, heq⟩

/-- **Structured code runs as one block.** Code in which nothing transfers control to a line is
never at fault, and at no depth does a statement ask for a jump. Control comes to its lines in
order, to each at most once. However it is cut in two, the parts run one after the other. -/
theorem run_structured {ip : Reg} {code : Code} (h : Code.transfers ip code = false)
    (r : Registers) :
    (∀ limit why, Code.run ip code limit r ≠ .error (.runtime why)) ∧
    (∀ s ∈ Code.parts code, ∀ r n t r' left, s.exec ip r n ≠ .done (.goto t) r' left) ∧
    (∀ lines, Visits ip code 0 r lines → lines = List.range lines.length) ∧
    (∀ n, Code.runWithin ip code n r = (Code.exec ip code r n).ended) ∧
    ∀ xs ys, xs ++ ys = code → RunsInTurn ip xs ys r := by
  refine ⟨fun limit ↦ run_ne_runtime_of_transfers h limit r, fun s hs r n t r' left hgoto ↦ ?_,
    fun lines hv ↦ ?_, runWithin_eq_exec h r, ?_⟩
  · rcases Stmt.flow_of_transfers (transfers_of_mem_parts code h hs) hgoto <;> contradiction
  · rw [List.range_eq_range']
    exact hv.eq_range' h
  · rintro xs ys rfl
    exact runsInTurn h

/-- A loop of two rounds, and behind it a statement that stops the run before another. -/
theorem run_structured_stopInBody :
    let xs : Code := [.doUntil ⟨.gt, .reg 1, .lit 1⟩ [.update .add 1 (.lit 1)]]
    let ys : Code := [.ifThen ⟨.eq, .reg 1, .lit 2⟩ [.halt], .assign 0 (.lit 9)]
    let r : Registers := ⟨#v[0, 0, 0, 0, 0, 0]⟩
    Code.run 5 (xs ++ ys) (some 6) r = .ok ⟨⟨#v[0, 2, 0, 0, 0, 0]⟩, 6⟩ ∧
      Code.run 5 (xs ++ ys) (some 5) r = .error (.limitExceeded 5) ∧
      Code.run 5 (xs ++ ys) (some 3) r = .error (.limitExceeded 3) := by
  intro xs ys r
  obtain ⟨-, -, -, -, hturn⟩ := @run_structured 5 (xs ++ ys) (by decide) r
  have hparts := hturn xs ys rfl
  obtain ⟨m, -, ht⟩ := Code.exact_exec 5 xs r 4 .next ⟨#v[0, 2, 0, 0, 0, 0]⟩ 0 rfl
  have hgo : ¬Stops 5 xs r := fun hstops ↦ by
    obtain ⟨n, r', ht'⟩ := (stops_iff (by decide)).mp hstops
    exact absurd (ht.unique ht').2.1 nofun
  refine ⟨?_, ?_, hparts.exceeded _ _ rfl⟩
  · rw [hparts.followed hgo (some 6) ⟨⟨#v[0, 2, 0, 0, 0, 0]⟩, 4⟩ rfl]
    rfl
  · rw [hparts.followed hgo (some 5) ⟨⟨#v[0, 2, 0, 0, 0, 0]⟩, 4⟩ rfl]
    rfl

end Code

end Unjump
