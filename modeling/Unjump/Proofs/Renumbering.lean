import Unjump.Fold.Site
import Unjump.Proofs.Paths

/-!
# Renumbered code runs as before

When lines move, every target moves along. This file has the two facts that make that harmless,
and then what a fold does to lines.

* A statement with its targets sent through `f` does what it did, except that where it sent control
  to a line it now sends control to `f` of that line (`Stmt.exec_mapTargets`). Bodies included, so
  the proof goes down the statement.
* A statement hands on control only in the ways that stand in it (`Stmt.mem_flows_of_takes`). In
  particular control goes to no line that is not among its targets, so only the targets matter.

A fold keeps all lines but the ones it removes. `Fold.Keeps` says which, and a kept line other than
the start of the fold holds, at its new number, the statement it had with its targets moved.
-/

namespace Unjump

/-! ## Targets through a function -/

/-- The outcome with its result sent through `g`. -/
def Outcome.map {α β : Type} (g : α → β) : Outcome α → Outcome β
  | .done a r left => .done (g a) r left
  | .exhausted => .exhausted
  | .fault => .fault

/-- The flow with its line sent through `f`. -/
def Flow.map (f : Nat → Nat) : Flow → Flow
  | .next => .next
  | .goto target => .goto (f target)
  | .halt => .halt

theorem Outcome.andThen_map (f : Nat → Nat) (o : Outcome Flow)
    (g : Registers → Nat → Outcome Flow) :
    (o.map (Flow.map f)).andThen (fun r n ↦ (g r n).map (Flow.map f)) =
      (o.andThen g).map (Flow.map f) := by
  cases o with
  | done flow r left => cases flow <;> rfl
  | exhausted => rfl
  | fault => rfl

theorem afterRound_map (f : Nat → Nat) (stop : Registers → Bool)
    (again : Registers → Nat → Outcome Flow) :
    afterRound stop (fun r n ↦ (again r n).map (Flow.map f)) =
      fun r n ↦ (afterRound stop again r n).map (Flow.map f) := by
  funext r n
  by_cases hs : stop r
  · simp only [afterRound, hs, if_true]
    rfl
  · cases n <;> simp only [afterRound, hs] <;> rfl

theorem repeatUntil_map (f : Nat → Nat) (body : Registers → Nat → Outcome Flow)
    (stop : Registers → Bool) (rounds : Nat) :
    repeatUntil (fun r n ↦ (body r n).map (Flow.map f)) stop rounds =
      fun r n ↦ (repeatUntil body stop rounds r n).map (Flow.map f) := by
  induction rounds with
  | zero =>
    funext r n
    have hstop : afterRound stop (fun _ _ ↦ .exhausted) = fun r n ↦
        (afterRound stop (fun _ _ ↦ .exhausted) r n).map (Flow.map f) :=
      afterRound_map f stop fun _ _ ↦ .exhausted
    rw [repeatUntil, repeatUntil, ← Outcome.andThen_map, ← hstop]
  | succ rounds ih =>
    funext r n
    rw [repeatUntil, repeatUntil, ih, afterRound_map, Outcome.andThen_map]

theorem Stmt.writesPointer_mapTargets (f : Nat → Nat) (ip : Reg) (s : Stmt) :
    (s.mapTargets f).writesPointer ip = s.writesPointer ip := by
  cases s <;> rfl

mutual

/-- **A renumbered statement does what it did, with its transfers renumbered.** -/
theorem Stmt.exec_mapTargets (f : Nat → Nat) (ip : Reg) (s : Stmt) :
    (s.mapTargets f).exec ip = fun r n ↦ (s.exec ip r n).map (Flow.map f) := by
  funext r n
  cases n with
  | zero =>
    rw [Stmt.exec, Stmt.exec]
    rfl
  | succ n =>
    cases s with
    | ifThen cond body =>
      rw [Stmt.mapTargets, Stmt.exec, Stmt.exec, Code.exec_mapTargets f ip body]
      split <;> rfl
    | doUntil cond body =>
      rw [Stmt.mapTargets, Stmt.exec, Stmt.exec, Code.exec_mapTargets f ip body, repeatUntil_map]
    | forUntil var init cond body =>
      -- counting up transfers nothing, so it does not notice the numbers
      have hcounted : countedBody ip var (Code.mapTargets f body) =
          fun r n ↦ (countedBody ip var body r n).map (Flow.map f) := by
        funext r n
        rw [countedBody, countedBody, Code.exec_mapTargets f ip body, ← Outcome.andThen_map]
        rfl
      rw [Stmt.mapTargets, Stmt.exec_forUntil, Stmt.exec_forUntil, hcounted, afterTick, afterTick,
        repeatUntil_map]
    | branch cond ifTrue ifFalse =>
      rw [Stmt.mapTargets, Stmt.exec, Stmt.exec]
      split <;> rfl
    | _ => rfl

theorem Code.exec_mapTargets (f : Nat → Nat) (ip : Reg) (body : List Stmt) :
    Code.exec ip (Code.mapTargets f body) = fun r n ↦ (Code.exec ip body r n).map (Flow.map f) := by
  cases body with
  | nil => rfl
  | cons s rest =>
    funext r n
    rw [Code.mapTargets, Code.exec, Code.exec, Stmt.writesPointer_mapTargets]
    split
    · rfl
    · rw [Stmt.exec_mapTargets f ip s, Code.exec_mapTargets f ip rest, Outcome.andThen_map]

end

theorem takes_map_iff {α β : Type} {g : α → β} {h : Registers → Nat → Outcome α} (hh : Exact h)
    {r r' : Registers} {n : Nat} {b : β} :
    Takes (fun r n ↦ (h r n).map g) r n b r' ↔ ∃ a, b = g a ∧ Takes h r n a r' := by
  constructor
  · intro ht
    have h0 := ht 0
    cases ho : h r (n + 0) with
    | done a r₁ left =>
      simp only [ho, Outcome.map] at h0
      cases h0
      obtain ⟨m, hn, hm⟩ := hh _ _ _ _ _ ho
      exact ⟨a, rfl, (show n = m from by omega) ▸ hm⟩
    | exhausted => simp only [ho, Outcome.map, reduceCtorEq] at h0
    | fault => simp only [ho, Outcome.map, reduceCtorEq] at h0
  · rintro ⟨a, rfl, ht⟩ k
    simp only [ht k, Outcome.map]

theorem Flow.next?_map (f : Nat → Nat) {after after' : Nat} (h : f after = after') (flow : Flow) :
    (flow.map f).next? after' = (flow.next? after).map f := by
  cases flow with
  | next => rw [Flow.map, Flow.next?, Flow.next?, Option.map_some, h]
  | goto t => rfl
  | halt => rfl

/-- A renumbered statement at a renumbered line sends control to the renumbered lines. -/
theorem takes_execAt_mapTargets_iff {f : Nat → Nat} {ip : Reg} {s : Stmt}
    (hw : s.writesPointer ip = false) {line line' : Nat} (hline : f (line + 1) = line' + 1)
    {r r' : Registers} {n : Nat} {next? : Option Nat} :
    Takes ((s.mapTargets f).execAt ip line') r n next? r' ↔
      ∃ prev?, next? = prev?.map f ∧ Takes (s.execAt ip line) r n prev? r' := by
  rw [takes_execAt_iff (by rw [Stmt.writesPointer_mapTargets, hw]), Stmt.exec_mapTargets]
  simp only [takes_map_iff (Stmt.exact_exec ip s), takes_execAt_iff hw]
  constructor
  · rintro ⟨_, rfl, flow, rfl, h⟩
    exact ⟨_, Flow.next?_map f hline flow, flow, rfl, h⟩
  · rintro ⟨_, rfl, flow, rfl, h⟩
    exact ⟨_, (Flow.next?_map f hline flow).symm, flow, rfl, h⟩

/-! ## Where control can go -/

mutual

/-- The ways in which a statement may hand on control other than to the next one. -/
def Stmt.flows : Stmt → List Flow
  | .goto target => [.goto target]
  | .branch _ ifTrue ifFalse => [.goto ifTrue, .goto ifFalse]
  | .halt => [.halt]
  | .ifThen _ body => Code.flows body
  | .doUntil _ body => Code.flows body
  | .forUntil _ _ _ body => Code.flows body
  | .assign .. | .update .. | .compare .. => []

/-- The ways in which the statements of some code may hand on control. -/
def Code.flows : List Stmt → List Flow
  | [] => []
  | s :: rest => s.flows ++ Code.flows rest

end

theorem Code.flows_eq_flatMap (code : List Stmt) : Code.flows code = code.flatMap Stmt.flows := by
  induction code with
  | nil => rfl
  | cons s rest ih => rw [Code.flows, ih, List.flatMap_cons]

mutual

theorem Stmt.goto_mem_flows_iff {t : Nat} (s : Stmt) : .goto t ∈ s.flows ↔ t ∈ s.targets := by
  cases s with
  | ifThen cond body => exact Code.goto_mem_flows_iff body
  | doUntil cond body => exact Code.goto_mem_flows_iff body
  | forUntil var init cond body => exact Code.goto_mem_flows_iff body
  | _ => simp [Stmt.flows, Stmt.targets]

theorem Code.goto_mem_flows_iff {t : Nat} (code : List Stmt) :
    .goto t ∈ Code.flows code ↔ t ∈ Code.targets code := by
  cases code with
  | nil => simp [Code.flows, Code.targets]
  | cons s rest =>
    rw [Code.flows, Code.targets, List.mem_append, List.mem_append, Stmt.goto_mem_flows_iff s,
      Code.goto_mem_flows_iff rest]

end

mutual

theorem Stmt.flows_mapTargets (f : Nat → Nat) (s : Stmt) :
    (s.mapTargets f).flows = s.flows.map (Flow.map f) := by
  cases s with
  | ifThen cond body => exact Code.flows_mapTargets f body
  | doUntil cond body => exact Code.flows_mapTargets f body
  | forUntil var init cond body => exact Code.flows_mapTargets f body
  | _ => rfl

theorem Code.flows_mapTargets (f : Nat → Nat) (code : List Stmt) :
    Code.flows (Code.mapTargets f code) = (Code.flows code).map (Flow.map f) := by
  cases code with
  | nil => rfl
  | cons s rest =>
    rw [Code.mapTargets, Code.flows, Code.flows, Stmt.flows_mapTargets f s,
      Code.flows_mapTargets f rest, List.map_append]

end

mutual

theorem Stmt.mem_flows_of_takes {ip : Reg} {flow : Flow} (s : Stmt) {r r' : Registers} {n : Nat}
    (h : Takes (s.exec ip) r n flow r') (hne : flow ≠ .next) : flow ∈ s.flows := by
  -- a statement without a body takes one step, and there is one thing it can do
  have flat {first : Flow} {r₁ : Registers}
      (ht : ∀ left, s.exec ip r (left + 1) = .done first r₁ left)
      (hmem : first = .next ∨ first ∈ s.flows) : flow ∈ s.flows := by
    obtain ⟨-, rfl, -⟩ := (Stmt.takes_of_tick ht).unique h
    exact hmem.resolve_left hne
  cases s with
  | assign dest value => exact flat (fun left ↦ by rw [Stmt.exec]) (.inl rfl)
  | update op dest value => exact flat (fun left ↦ by rw [Stmt.exec]) (.inl rfl)
  | compare cond dest => exact flat (fun left ↦ by rw [Stmt.exec]) (.inl rfl)
  | goto target => exact flat (fun left ↦ by rw [Stmt.exec]) (.inr (by simp [Stmt.flows]))
  | branch cond ifTrue ifFalse =>
    refine flat (fun left ↦ by rw [Stmt.exec]) (.inr ?_)
    rw [Stmt.flows]
    split <;> simp
  | halt => exact flat (fun left ↦ by rw [Stmt.exec]) (.inr (by simp [Stmt.flows]))
  | ifThen cond body =>
    obtain ⟨m, -, ⟨-, hb⟩ | ⟨-, -, hflow, -⟩⟩ := takes_ifThen_iff.mp h
    · exact Code.mem_flows_of_takes body hb hne
    · exact absurd hflow hne
  | doUntil cond body =>
    obtain ⟨m, -, hr⟩ := takes_doUntil_iff.mp h
    obtain ⟨r₁, k, hb⟩ := hr.exists_takes hne
    exact Code.mem_flows_of_takes body hb hne
  | forUntil var init cond body =>
    obtain ⟨m, -, hr⟩ := takes_forUntil_iff.mp h
    obtain ⟨r₁, k, hb⟩ := hr.exists_takes hne
    rcases takes_countedBody_iff.mp hb with ⟨-, hb⟩ | ⟨hflow, -⟩
    · exact Code.mem_flows_of_takes body hb hne
    · exact absurd hflow hne

theorem Code.mem_flows_of_takes {ip : Reg} {flow : Flow} (body : List Stmt) {r r' : Registers}
    {n : Nat} (h : Takes (Code.exec ip body) r n flow r') (hne : flow ≠ .next) :
    flow ∈ Code.flows body := by
  cases body with
  | nil => exact absurd (takes_nil_iff.mp h).2.1 hne
  | cons s rest =>
    rw [Code.flows, List.mem_append]
    obtain ⟨-, ⟨-, hs⟩ | ⟨m₁, m₂, r₁, -, -, hrest⟩⟩ := takes_cons_iff.mp h
    · exact .inl (Stmt.mem_flows_of_takes s hs hne)
    · exact .inr (Code.mem_flows_of_takes rest hrest hne)

end

theorem Stmt.mem_targets_of_takes {ip : Reg} {t : Nat} (s : Stmt) {r r' : Registers} {n : Nat}
    (h : Takes (s.exec ip) r n (.goto t) r') : t ∈ s.targets :=
  s.goto_mem_flows_iff.mp (s.mem_flows_of_takes h (by simp))

/-! ## The lines of folded code -/

namespace Fold

variable {f : Fold} {code : Code} {line : Nat}

/-- The lines that a fold leaves. -/
def Keeps (f : Fold) (line : Nat) : Prop := line ≤ f.start ∨ f.start + f.removed < line

theorem keeps_zero (f : Fold) : f.Keeps 0 := .inl (Nat.zero_le f.start)

theorem keeps_after (f : Fold) : f.Keeps (f.start + f.removed + 1) := .inr (Nat.lt_succ_self _)

theorem Keeps.succ (h : f.Keeps line) (hne : line ≠ f.start) : f.Keeps (line + 1) := by
  rcases h with h | h
  · exact .inl (by omega)
  · exact .inr (by omega)

theorem renumber_of_le (h : line ≤ f.start) : f.renumber line = line := by
  rw [renumber, if_neg (Nat.not_lt.mpr h)]

theorem renumber_of_lt (h : f.start + f.removed < line) : f.renumber line = line - f.removed := by
  rw [renumber, if_pos (by omega)]

theorem renumber_after (f : Fold) : f.renumber (f.start + f.removed + 1) = f.start + 1 := by
  rw [renumber_of_lt (Nat.lt_succ_self _)]
  omega

theorem Keeps.renumber_succ (h : f.Keeps line) (hne : line ≠ f.start) :
    f.renumber (line + 1) = f.renumber line + 1 := by
  rcases h with h | h
  · rw [renumber_of_le (by omega), renumber_of_le h]
  · rw [renumber_of_lt (by omega), renumber_of_lt h]
    omega

/-- Lines that lie together on one side of the fold stay together. -/
theorem keeps_add {i j : Nat} (h : line + j ≤ f.start ∨ f.start + f.removed < line) (hi : i ≤ j) :
    f.Keeps (line + i) ∧ f.renumber (line + i) = f.renumber line + i := by
  rcases h with h | h
  · rw [renumber_of_le (by omega), renumber_of_le (by omega)]
    exact ⟨.inl (by omega), rfl⟩
  · rw [renumber_of_lt (by omega), renumber_of_lt h]
    exact ⟨.inr (by omega), by omega⟩

/-- Kept lines stay apart. -/
theorem Keeps.renumber_inj {line' : Nat} (h : f.Keeps line) (h' : f.Keeps line')
    (heq : f.renumber line = f.renumber line') : line = line' := by
  rcases h with h | h <;> rcases h' with h' | h'
  · rwa [renumber_of_le h, renumber_of_le h'] at heq
  · rw [renumber_of_le h, renumber_of_lt h'] at heq
    omega
  · rw [renumber_of_lt h, renumber_of_le h'] at heq
    omega
  · rw [renumber_of_lt h, renumber_of_lt h'] at heq
    omega

theorem getElem?_apply_start (h : f.Fits code) :
    (f.apply code)[f.start]? = some (f.stmt.mapTargets f.renumber) := by
  have hlen : (code.take f.start).length = f.start := by
    rw [List.length_take]
    have := h.2
    omega
  rw [apply_eq_mapTargets, Code.mapTargets_eq_map, List.getElem?_map, surviving,
    List.getElem?_append_right (Nat.le_of_eq hlen), hlen, Nat.sub_self, List.getElem?_cons_zero,
    Option.map_some]

/-- A line that is kept has the statement it had, renumbered. -/
theorem getElem?_apply (h : f.Fits code) (hk : f.Keeps line) (hne : line ≠ f.start) :
    (f.apply code)[f.renumber line]? = (code[line]?).map (Stmt.mapTargets f.renumber) := by
  have hlen : (code.take f.start).length = f.start := by
    rw [List.length_take]
    have := h.2
    omega
  rw [apply_eq_mapTargets, Code.mapTargets_eq_map, List.getElem?_map, surviving]
  congr 1
  rcases hk with hk | hk
  · rw [renumber_of_le hk, List.getElem?_append_left (by omega),
      List.getElem?_take_of_lt (by omega)]
  · rw [renumber_of_lt hk, List.getElem?_append_right (by omega), hlen,
      show line - f.removed - f.start = (line - f.removed - f.start - 1) + 1 from by omega,
      List.getElem?_cons_succ, List.getElem?_drop]
    congr 1
    omega

/-- What stands in folded code stood in the code before, or is new. -/
theorem exists_of_mem_apply {s : Stmt} (h : s ∈ f.apply code) :
    ∃ s', s = s'.mapTargets f.renumber ∧ (s' = f.stmt ∨ s' ∈ code) := by
  rw [apply_eq_mapTargets, Code.mapTargets_eq_map] at h
  obtain ⟨s', hs', rfl⟩ := List.mem_map.mp h
  refine ⟨s', rfl, ?_⟩
  rcases List.mem_append.mp hs' with hs' | hs'
  · exact .inr (List.mem_of_mem_take hs')
  · rcases List.mem_cons.mp hs' with hs' | hs'
    · exact .inl hs'
    · exact .inr (List.mem_of_mem_drop hs')

/-- A fold brings no `halt` about unless its new statement has one. -/
theorem halt_not_mem_flows_apply (hstmt : .halt ∉ f.stmt.flows)
    (hhalt : .halt ∉ Code.flows code) : .halt ∉ Code.flows (f.apply code) := by
  intro hmem
  rw [Code.flows_eq_flatMap] at hmem hhalt
  obtain ⟨s, hs, hmem⟩ := List.mem_flatMap.mp hmem
  obtain ⟨s', rfl, hs'⟩ := exists_of_mem_apply hs
  rw [Stmt.flows_mapTargets, List.mem_map] at hmem
  obtain ⟨flow, hflow, heq⟩ := hmem
  have hstop : flow = .halt := by
    cases flow <;> cases heq
    rfl
  subst hstop
  rcases hs' with rfl | hs'
  · exact hstmt hflow
  · exact hhalt (List.mem_flatMap.mpr ⟨s', hs', hflow⟩)

/-! ## Sound folds -/

/-- No transfer from a line that stays goes to a line that goes. -/
def Sealed (f : Fold) (code : Code) : Prop :=
  ∀ line s, code[line]? = some s → f.Keeps line → line ≠ f.start → ∀ t ∈ s.targets, f.Keeps t

/-- The state of folded code that belongs to a state of the code before. -/
def Matches (f : Fold) (line : Nat) (r : Registers) (line' : Nat) (q : Registers) : Prop :=
  f.Keeps line ∧ line' = f.renumber line ∧ q = r

/-- Away from the fold, control goes from kept lines to kept lines. -/
theorem keeps_of_takes {ip : Reg} {s : Stmt} (hsealed : f.Sealed code) (hs : code[line]? = some s)
    (hw : s.writesPointer ip = false) (hk : f.Keeps line) (hne : line ≠ f.start) {r r' : Registers}
    {n next : Nat} (h : Takes (s.execAt ip line) r n (some next) r') : f.Keeps next := by
  obtain ⟨flow, hnext, ht⟩ := (takes_execAt_iff hw).mp h
  cases flow with
  | next =>
    cases hnext
    exact hk.succ hne
  | goto t =>
    cases hnext
    exact hsealed line s hs hk hne _ (Stmt.mem_targets_of_takes s ht)
  | halt => cases hnext

section

variable {ip : Reg} {r : Registers}

/-- Away from the fold, folded code does what the code did. -/
theorem advances_of_ne {bounded : Prop} (hfits : f.Fits code) (hsealed : f.Sealed code)
    (hplain : ∀ s ∈ code, s.writesPointer ip = false) (hk : f.Keeps line) (hne : line ≠ f.start) :
    Code.Advances ip bounded code (f.apply code) f.Matches Eq line r (f.renumber line) r := by
  intro n r' he
  have hget := getElem?_apply hfits hk hne
  cases hs : code[line]? with
  | none =>
    rw [hs, Option.map_none] at hget
    cases he with
    | off _ => exact .inl ⟨0, r, .off hget, fun _ ↦ Nat.le_refl 0, rfl⟩
    | stop hs' _ => rw [hs] at hs'; cases hs'
    | step hs' _ _ => rw [hs] at hs'; cases hs'
  | some s =>
    rw [hs, Option.map_some] at hget
    have hw := hplain s (List.mem_of_getElem? hs)
    have hsucc := hk.renumber_succ hne
    rcases he.cases_of_some hs with ht | ⟨k, m, next, r₁, rfl, ht, he⟩
    · have ht' := (takes_execAt_mapTargets_iff hw hsucc).mpr ⟨none, rfl, ht⟩
      exact .inl ⟨n, r', .stop hget ht', fun _ ↦ Nat.le_refl n, rfl⟩
    · have ht' := (takes_execAt_mapTargets_iff hw hsucc).mpr ⟨some next, rfl, ht⟩
      exact .inr ⟨k, m, next, r₁, k, f.renumber next, r₁, rfl, Stmt.pos_of_takes_execAt ht, he,
        .single hget ht', fun _ ↦ Nat.le_refl k, keeps_of_takes hsealed hs hw hk hne ht, rfl, rfl⟩

/-- Away from the fold, the code did what folded code does. -/
theorem advances_back_of_ne (hfits : f.Fits code) (hsealed : f.Sealed code)
    (hplain : ∀ s ∈ code, s.writesPointer ip = false) (hk : f.Keeps line) (hne : line ≠ f.start) :
    Code.Advances ip False (f.apply code) code (fun line' q line r ↦ f.Matches line r line' q) Eq
      (f.renumber line) r line r := by
  intro n r' he
  have hget := getElem?_apply hfits hk hne
  cases hs : code[line]? with
  | none =>
    rw [hs, Option.map_none] at hget
    cases he with
    | off _ => exact .inl ⟨0, r, .off hs, False.elim, rfl⟩
    | stop hs' _ => rw [hget] at hs'; cases hs'
    | step hs' _ _ => rw [hget] at hs'; cases hs'
  | some s =>
    rw [hs, Option.map_some] at hget
    have hw := hplain s (List.mem_of_getElem? hs)
    have hsucc := hk.renumber_succ hne
    rcases he.cases_of_some hget with ht | ⟨k, m, next, r₁, rfl, ht, he⟩
    · obtain ⟨prev?, hprev, ht'⟩ := (takes_execAt_mapTargets_iff hw hsucc).mp ht
      rw [Option.map_eq_none_iff.mp hprev.symm] at ht'
      exact .inl ⟨n, r', .stop hs ht', False.elim, rfl⟩
    · obtain ⟨prev?, hprev, ht'⟩ := (takes_execAt_mapTargets_iff hw hsucc).mp ht
      obtain ⟨prev, rfl, rfl⟩ := Option.map_eq_some_iff.mp hprev.symm
      exact .inr ⟨k, m, f.renumber prev, r₁, k, prev, r₁, rfl, Stmt.pos_of_takes_execAt ht, he,
        .single hs ht', False.elim, keeps_of_takes hsealed hs hw hk hne ht', rfl, rfl⟩

end

/-- The statement that a fold puts in does what the stretch did that it replaces: what ran through
the stretch runs through the statement, in no more steps, and the other way round. Where the stretch
stops the run nothing is said about steps, since a statement takes one for itself before its body
gets to stop. -/
structure Sound (f : Fold) (ip : Reg) (code : Code) : Prop where
  fits : f.Fits code
  isSealed : f.Sealed code
  plain : f.stmt.writesPointer ip = false
  kept : ∀ t ∈ f.stmt.targets, f.Keeps t
  inside : ∀ flow ∈ f.stmt.flows, flow ∈ Code.flows code
  /-- A path to the end that enters the stretch halts within it, or passes through it. -/
  passes : ∀ {r n r'}, Code.Ends ip code f.start r n r' →
    (∃ m, Takes (f.stmt.exec ip) r m .halt r') ∨
    ∃ k n₁ m flow line r₁, n = k + n₁ ∧ m ≤ k ∧ Takes (f.stmt.exec ip) r m flow r₁ ∧
      flow.next? (f.start + f.removed + 1) = some line ∧ Code.Ends ip code line r₁ n₁ r'
  stops : ∀ {r m r'}, Takes (f.stmt.exec ip) r m .halt r' → ∃ n, Code.Ends ip code f.start r n r'
  leaves : ∀ {r m r' flow line}, Takes (f.stmt.exec ip) r m flow r' →
    flow.next? (f.start + f.removed + 1) = some line →
      ∃ n, Code.Reaches ip code f.start r n line r'

namespace Sound

variable {ip : Reg}

theorem keeps_of_takes (h : f.Sound ip code) {r r' : Registers} {n : Nat} {flow : Flow}
    (ht : Takes (f.stmt.exec ip) r n flow r')
    (hnext : flow.next? (f.start + f.removed + 1) = some line) : f.Keeps line := by
  cases flow with
  | next =>
    cases hnext
    exact f.keeps_after
  | goto t =>
    cases hnext
    exact h.kept _ (Stmt.mem_targets_of_takes f.stmt ht)
  | halt => cases hnext

/-- The new statement, at its line and renumbered, sends control to the renumbered lines. -/
theorem takes_start_iff (h : f.Sound ip code) {r r' : Registers} {n : Nat} {next? : Option Nat} :
    Takes ((f.stmt.mapTargets f.renumber).execAt ip f.start) r n next? r' ↔
      ∃ flow : Flow, next? = (flow.next? (f.start + f.removed + 1)).map f.renumber ∧
        Takes (f.stmt.exec ip) r n flow r' := by
  rw [takes_execAt_mapTargets_iff h.plain f.renumber_after]
  simp only [takes_execAt_iff h.plain]
  constructor
  · rintro ⟨_, rfl, flow, rfl, ht⟩
    exact ⟨flow, rfl, ht⟩
  · rintro ⟨flow, rfl, ht⟩
    exact ⟨_, rfl, flow, rfl, ht⟩

theorem plain_apply (h : f.Sound ip code) (hplain : ∀ s ∈ code, s.writesPointer ip = false) :
    ∀ s ∈ f.apply code, s.writesPointer ip = false := by
  intro s hs
  obtain ⟨s', rfl, rfl | hs'⟩ := exists_of_mem_apply hs
  · rw [Stmt.writesPointer_mapTargets, h.plain]
  · rw [Stmt.writesPointer_mapTargets, hplain s' hs']

/-- **Folded code ends as the code did**, and in no more steps unless something in it can stop the
run. -/
theorem ends_apply (h : f.Sound ip code) (hplain : ∀ s ∈ code, s.writesPointer ip = false)
    {bounded : Prop} (hb : bounded → .halt ∉ Code.flows code)
    {r r' : Registers} {n : Nat} (he : Code.Ends ip code 0 r n r') :
    ∃ m, Code.Within bounded n m ∧ Code.Ends ip (f.apply code) 0 r m r' := by
  have hget := getElem?_apply_start h.fits
  have hadv : ∀ {line r line' q}, f.Matches line r line' q →
      Code.Advances ip bounded code (f.apply code) f.Matches Eq line r line' q := by
    rintro line r _ _ ⟨hk, rfl, rfl⟩
    -- all the lines of the fold against its one statement, or one statement against another
    by_cases hne : line = f.start
    · subst hne
      rw [renumber_of_le (Nat.le_refl _)]
      intro n r' he
      rcases h.passes he with ⟨m, ht⟩ | ⟨k, n₁, m, flow, line, r₁, rfl, hm, ht, hnext, he⟩
      · exact .inl ⟨m, r', .stop hget (h.takes_start_iff.mpr ⟨.halt, rfl, ht⟩),
          fun hbd ↦ absurd (h.inside _ (f.stmt.mem_flows_of_takes ht (by simp))) (hb hbd), rfl⟩
      · have ht' := h.takes_start_iff.mpr ⟨flow, rfl, ht⟩
        rw [hnext, Option.map_some] at ht'
        exact .inr ⟨k, n₁, line, r₁, m, f.renumber line, r₁, rfl,
          Nat.lt_of_lt_of_le (Stmt.pos_of_takes ht) hm, he, .single hget ht', fun _ ↦ hm,
          h.keeps_of_takes ht hnext, rfl, rfl⟩
    · exact advances_of_ne h.fits h.isSealed hplain hk hne
  obtain ⟨m, q', he', hm, rfl⟩ := Code.ends_of_advances hadv ⟨f.keeps_zero, rfl, rfl⟩ he
  rw [renumber_of_le (Nat.zero_le _)] at he'
  exact ⟨m, hm, he'⟩

/-- **Code ends as the folded code does.** -/
theorem ends_of_apply (h : f.Sound ip code) (hplain : ∀ s ∈ code, s.writesPointer ip = false)
    {r r' : Registers} {n : Nat} (he : Code.Ends ip (f.apply code) 0 r n r') :
    ∃ m, Code.Ends ip code 0 r m r' := by
  have hget := getElem?_apply_start h.fits
  have hadv : ∀ {line' q line r}, f.Matches line r line' q →
      Code.Advances ip False (f.apply code) code (fun line' q line r ↦ f.Matches line r line' q) Eq
        line' q line r := by
    rintro _ _ line r ⟨hk, rfl, rfl⟩
    by_cases hne : line = f.start
    · subst hne
      rw [renumber_of_le (Nat.le_refl _)]
      intro n r' he
      rcases he.cases_of_some hget with ht | ⟨k, n₁, next, r₁, rfl, ht, he⟩
      · obtain ⟨flow, hflow, ht⟩ := h.takes_start_iff.mp ht
        cases flow with
        | next => cases hflow
        | goto t => cases hflow
        | halt =>
          obtain ⟨m, he'⟩ := h.stops ht
          exact .inl ⟨m, r', he', False.elim, rfl⟩
      · obtain ⟨flow, hflow, ht'⟩ := h.takes_start_iff.mp ht
        obtain ⟨line, hline, rfl⟩ := Option.map_eq_some_iff.mp hflow.symm
        obtain ⟨m, hr⟩ := h.leaves ht' hline
        exact .inr ⟨k, n₁, f.renumber line, r₁, m, line, r₁, rfl, Stmt.pos_of_takes_execAt ht, he,
          hr, False.elim, h.keeps_of_takes ht' hline, rfl, rfl⟩
    · exact advances_back_of_ne h.fits h.isSealed hplain hk hne
  have hmatch : f.Matches 0 r 0 r :=
    ⟨f.keeps_zero, (renumber_of_le (Nat.zero_le _)).symm, rfl⟩
  obtain ⟨m, q', he', -, rfl⟩ := Code.ends_of_advances hadv hmatch he
  exact ⟨m, he'⟩

end Sound

end Fold

end Unjump
