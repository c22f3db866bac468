import Unjump.Proofs.Steps

/-!
# How control moves over lines

A run of code is a path over its lines: each statement it comes to takes some steps and sends
control to another line, or stops. `Code.Reaches` is a piece of such a path and `Code.Ends` a path
to its end, both with the steps they take. A path to the end is the same thing as a run that halts
within some budget (`Code.runWithin_eq_done_iff`), so from here on budgets are out of sight.

## Simulation

Two codes are compared along their paths (`Code.ends_of_advances`). It is enough to have a relation
between their states and to know, of related states, that whenever the first code goes on to an end,
it passes through a state that the second code can be brought to as well. The second code may move
by whole stretches where the first goes statement by statement, or the other way round. The
argument is an induction on the steps that are left, so the first code has to take at least one.
Where neither code can get stuck within a statement, both move on their own and the comparison goes
both ways at once (`Code.Lockstep`).
-/

namespace Unjump

/-! ## Statements at their lines -/

/-- The line to continue at when `after` is the line after the statement. -/
def Flow.next? (after : Nat) : Flow → Option Nat
  | .next => some after
  | .goto target => some target
  | .halt => none

section

variable {ip : Reg} {line : Nat} {s : Stmt}

theorem Stmt.execAt_eq_bind (hw : s.writesPointer ip = false) :
    s.execAt ip line = fun r n ↦ (s.exec ip r n).bind fun flow r left ↦
      .done (flow.next? (line + 1)) (id r) left := by
  funext r n
  rw [Stmt.execAt, hw, if_neg Bool.false_ne_true]
  congr 1
  funext flow r left
  cases flow <;> rfl

/-- What a statement at a line does is what it does anywhere, and then control goes on. -/
theorem takes_execAt_iff (hw : s.writesPointer ip = false) {r r' : Registers} {n : Nat}
    {next? : Option Nat} :
    Takes (s.execAt ip line) r n next? r' ↔
      ∃ flow : Flow, next? = flow.next? (line + 1) ∧ Takes (s.exec ip) r n flow r' := by
  rw [Stmt.execAt_eq_bind hw, takes_bind_iff (Stmt.exact_exec ip s) fun flow ↦ .of_done _ id]
  constructor
  · rintro ⟨m₁, m₂, flow, r₁, rfl, h, h'⟩
    obtain ⟨rfl, rfl, rfl⟩ := (takes_done_iff id).mp h'
    exact ⟨flow, rfl, h⟩
  · rintro ⟨flow, rfl, h⟩
    exact ⟨n, 0, flow, r', rfl, h, (takes_done_iff id).mpr ⟨rfl, rfl, rfl⟩⟩

/-- What stops a run at a line halts, wherever it stands. -/
theorem takes_execAt_none_iff (hw : s.writesPointer ip = false) {r r' : Registers} {n : Nat} :
    Takes (s.execAt ip line) r n none r' ↔ Takes (s.exec ip) r n .halt r' := by
  rw [takes_execAt_iff hw]
  constructor
  · rintro ⟨flow, hflow, h⟩
    cases flow with
    | next => cases hflow
    | goto t => cases hflow
    | halt => exact h
  · intro h
    exact ⟨.halt, rfl, h⟩

/-- A skip runs with its line in the pointer and goes on past what it leaves there. -/
theorem takes_execAt_skip_iff (hw : s.writesPointer ip = true) {r r' : Registers} {n : Nat}
    {next? : Option Nat} :
    Takes (s.execAt ip line) r n next? r' ↔
      ∃ flow : Flow, Takes (s.exec ip) (r.set ip (Int64.ofNat line)) n flow r' ∧
        next? = (r'.get ip + 1).line? := by
  have heq : s.execAt ip line = fun r n ↦
      (s.exec ip (r.set ip (Int64.ofNat line)) n).bind fun _ r left ↦
        .done (r.get ip + 1).line? r left := by
    funext r n
    rw [Stmt.execAt, hw, if_pos rfl]
  have hdone : ∀ _ : Flow, Exact fun (r : Registers) n ↦ .done (r.get ip + 1).line? r n := by
    intro _ r n a r' left h
    cases h
    exact ⟨0, by omega, fun k ↦ by rw [Nat.zero_add]⟩
  rw [heq]
  constructor
  · intro h
    obtain ⟨m₁, m₂, flow, r₁, hn, h₁, h₂⟩ :=
      (takes_bind_iff ((Stmt.exact_exec ip s).comp_set fun r ↦ r.set ip (Int64.ofNat line))
        hdone).mp h
    have h0 := h₂ 0
    cases h0
    exact ⟨flow, hn ▸ h₁, rfl⟩
  · rintro ⟨flow, h, rfl⟩ k
    simp only [h k, Outcome.bind]

theorem Stmt.exact_execAt (ip : Reg) (line : Nat) (s : Stmt) : Exact (s.execAt ip line) := by
  by_cases hw : s.writesPointer ip
  · intro r n next? r' left h
    rw [Stmt.execAt, if_pos hw] at h
    obtain ⟨flow, r₁, mid, hexec, hdone⟩ := Outcome.exists_of_bind_eq_done h
    cases hdone
    obtain ⟨m, hn, hm⟩ := Stmt.exact_exec ip s _ _ _ _ _ hexec
    exact ⟨m, hn, (takes_execAt_skip_iff hw).mpr ⟨flow, hm, rfl⟩⟩
  · rw [Stmt.execAt_eq_bind (by simpa using hw)]
    exact (Stmt.exact_exec ip s).bind fun flow ↦ .of_done _ id

theorem Stmt.pos_of_takes_execAt {r r' : Registers} {n : Nat} {next? : Option Nat}
    (h : Takes (s.execAt ip line) r n next? r') : 0 < n := by
  by_cases hw : s.writesPointer ip
  · obtain ⟨flow, h, -⟩ := (takes_execAt_skip_iff hw).mp h
    exact Stmt.pos_of_takes h
  · obtain ⟨flow, -, h⟩ := (takes_execAt_iff (by simpa using hw)).mp h
    exact Stmt.pos_of_takes h

end

/-! ## Paths -/

namespace Code

/-- From `line` with `r`, control gets to another line, with another register file, after a number
of steps. -/
inductive Reaches (ip : Reg) (code : Code) : Nat → Registers → Nat → Nat → Registers → Prop
  | refl {line : Nat} {r : Registers} : Reaches ip code line r 0 line r
  | step {line line' line'' n m : Nat} {r r' r'' : Registers} {s : Stmt}
    (hs : code[line]? = some s) (ht : Takes (s.execAt ip line) r n (some line') r')
    (hr : Reaches ip code line' r' m line'' r'') : Reaches ip code line r (n + m) line'' r''

/-- From `line` with `r`, the run halts after a number of steps with another register file. -/
inductive Ends (ip : Reg) (code : Code) : Nat → Registers → Nat → Registers → Prop
  /-- No statement is left to run. -/
  | off {line : Nat} {r : Registers} (hs : code[line]? = none) : Ends ip code line r 0 r
  /-- The statement stops the run. -/
  | stop {line n : Nat} {r r' : Registers} {s : Stmt} (hs : code[line]? = some s)
    (ht : Takes (s.execAt ip line) r n none r') : Ends ip code line r n r'
  | step {line line' n m : Nat} {r r' r'' : Registers} {s : Stmt} (hs : code[line]? = some s)
    (ht : Takes (s.execAt ip line) r n (some line') r') (he : Ends ip code line' r' m r'') :
    Ends ip code line r (n + m) r''

variable {ip : Reg} {code : Code}

theorem Reaches.single {line line' n : Nat} {r r' : Registers} {s : Stmt}
    (hs : code[line]? = some s) (ht : Takes (s.execAt ip line) r n (some line') r') :
    Reaches ip code line r n line' r' :=
  .step hs ht .refl

theorem Reaches.trans {line line' line'' n m : Nat} {r r' r'' : Registers}
    (h : Reaches ip code line r n line' r') (h' : Reaches ip code line' r' m line'' r'') :
    Reaches ip code line r (n + m) line'' r'' := by
  induction h with
  | refl => rwa [Nat.zero_add]
  | step hs ht _ ih =>
    rw [Nat.add_assoc]
    exact .step hs ht (ih h')

theorem Reaches.ends {line line' n m : Nat} {r r' r'' : Registers}
    (h : Reaches ip code line r n line' r') (h' : Ends ip code line' r' m r'') :
    Ends ip code line r (n + m) r'' := by
  induction h with
  | refl => rwa [Nat.zero_add]
  | step hs ht _ ih =>
    rw [Nat.add_assoc]
    exact .step hs ht (ih h')

/-- A path to the end from a line with a statement starts with that statement. -/
theorem Ends.cases_of_some {line n : Nat} {r r'' : Registers} {s : Stmt}
    (h : Ends ip code line r n r'') (hs : code[line]? = some s) :
    Takes (s.execAt ip line) r n none r'' ∨
      ∃ k m line' r', n = k + m ∧ Takes (s.execAt ip line) r k (some line') r' ∧
        Ends ip code line' r' m r'' := by
  cases h with
  | off hs' => rw [hs'] at hs; cases hs
  | stop hs' ht =>
    rw [hs'] at hs
    cases hs
    exact .inl ht
  | step hs' ht he =>
    rw [hs'] at hs
    cases hs
    exact .inr ⟨_, _, _, _, rfl, ht, he⟩

/-! ## Paths to the end are runs that halt -/

theorem Ends.runFrom_eq {line n : Nat} {r r' : Registers} (h : Ends ip code line r n r') :
    ∀ rounds, n ≤ rounds → ∀ k,
      runFrom ip (fun l ↦ code[l]?) rounds line r (n + k) = .done () r' k := by
  induction h with
  | off hs =>
    intro rounds _ k
    rw [runFrom, hs, Nat.zero_add]
  | stop hs ht =>
    intro rounds hle k
    -- a statement takes a step, so there is a round for it
    obtain ⟨rounds, rfl⟩ := Nat.exists_eq_succ_of_ne_zero
      (Nat.ne_of_gt (Nat.lt_of_lt_of_le (Stmt.pos_of_takes_execAt ht) hle))
    rw [runFrom, hs]
    simp only [ht k, Outcome.bind]
  | step hs ht _ ih =>
    rename_i n m _ _ _ _ _
    intro rounds hle k
    have hpos := Stmt.pos_of_takes_execAt ht
    obtain ⟨rounds, rfl⟩ := Nat.exists_eq_succ_of_ne_zero (n := rounds) (by omega)
    rw [runFrom, hs]
    simp only [Nat.add_assoc, ht (m + k), Outcome.bind]
    exact ih rounds (by omega) k

theorem ends_of_runFrom {rounds line n left : Nat} {r r' : Registers}
    (h : runFrom ip (fun l ↦ code[l]?) rounds line r n = .done () r' left) :
    ∃ m, n = m + left ∧ Ends ip code line r m r' := by
  induction rounds generalizing line r n with
  | zero =>
    rw [runFrom] at h
    cases hs : code[line]? with
    | none =>
      rw [hs] at h
      cases h
      exact ⟨0, by omega, .off hs⟩
    | some s => simp [hs] at h
  | succ rounds ih =>
    rw [runFrom] at h
    cases hs : code[line]? with
    | none =>
      rw [hs] at h
      cases h
      exact ⟨0, by omega, .off hs⟩
    | some s =>
      simp only [hs] at h
      obtain ⟨next?, r₁, mid, hexec, h⟩ := Outcome.exists_of_bind_eq_done h
      obtain ⟨m, rfl, ht⟩ := Stmt.exact_execAt ip line s _ _ _ _ _ hexec
      cases next? with
      | none =>
        cases h
        exact ⟨m, rfl, .stop hs ht⟩
      | some line' =>
        obtain ⟨m', rfl, he⟩ := ih h
        exact ⟨m + m', by omega, .step hs ht he⟩

/-- **A run halts within a budget exactly when there is a path from the first line to an end that
takes no more steps**, and what is left of the budget is the difference. -/
theorem runWithin_eq_done_iff {budget left : Nat} {r r' : Registers} :
    Code.runWithin ip code budget r = .done () r' left ↔
      ∃ n, budget = n + left ∧ Ends ip code 0 r n r' := by
  rw [runWithin_eq]
  constructor
  · exact ends_of_runFrom
  · rintro ⟨n, rfl, h⟩
    exact h.runFrom_eq (n + left) (Nat.le_add_right n left) left

/-- A run under a step limit reports how the path to its end goes. -/
theorem run_eq_ok_iff {limit : StepLimit} {r : Registers} {e : Execution} :
    Code.run ip code limit r = .ok e ↔
      e.steps ≤ limit.budget ∧ Ends ip code 0 r e.steps e.registers := by
  unfold Code.run
  constructor
  · intro h
    cases hrun : Code.runWithin ip code limit.budget r with
    | done _ r' left =>
      rw [hrun] at h
      cases h
      obtain ⟨n, hn, he⟩ := runWithin_eq_done_iff.mp hrun
      have hsteps : limit.budget - left = n := by omega
      exact ⟨by simp only; omega, by simpa only [hsteps] using he⟩
    | exhausted => rw [hrun] at h; cases h
    | fault => rw [hrun] at h; cases h
  · rintro ⟨hle, he⟩
    have hrun : Code.runWithin ip code limit.budget r =
        .done () e.registers (limit.budget - e.steps) :=
      runWithin_eq_done_iff.mpr ⟨e.steps, by omega, he⟩
    have hsteps : limit.budget - (limit.budget - e.steps) = e.steps := by omega
    rw [hrun]
    simp only [Execution.ofRun, hsteps]

/-- The run halts with a register file, if it is given enough steps. -/
def HaltsWith (ip : Reg) (code : Code) (r r' : Registers) : Prop :=
  ∃ budget left, Code.runWithin ip code budget r = .done () r' left

theorem haltsWith_iff {r r' : Registers} :
    HaltsWith ip code r r' ↔ ∃ n, Ends ip code 0 r n r' := by
  unfold HaltsWith
  simp only [runWithin_eq_done_iff]
  constructor
  · rintro ⟨_, _, n, -, h⟩
    exact ⟨n, h⟩
  · rintro ⟨n, h⟩
    exact ⟨n, 0, n, rfl, h⟩

/-- From every state a run halts in one way only. -/
theorem Ends.unique {line n m : Nat} {r r' r'' : Registers} (h : Ends ip code line r n r')
    (h' : Ends ip code line r m r'') : n = m ∧ r' = r'' := by
  have hn := h.runFrom_eq (n + m) (Nat.le_add_right n m) m
  have hm := h'.runFrom_eq (n + m) (Nat.le_add_left m n) n
  rw [Nat.add_comm m n, hn] at hm
  cases hm
  exact ⟨rfl, rfl⟩

/-- A path to the end goes through every state that control gets to. -/
theorem Ends.of_reaches {line line₁ n k : Nat} {r r₁ r' : Registers}
    (h : Ends ip code line r n r') (hr : Reaches ip code line r k line₁ r₁) :
    ∃ n₁, n = k + n₁ ∧ Ends ip code line₁ r₁ n₁ r' := by
  induction hr generalizing n with
  | refl => exact ⟨n, by omega, h⟩
  | step hs ht _ ih =>
    rcases h.cases_of_some hs with hstop | ⟨k', m, line', r'', rfl, ht', he⟩
    · cases (ht.unique hstop).2.1
    · obtain ⟨rfl, hline, rfl⟩ := ht.unique ht'
      cases hline
      obtain ⟨n₁, rfl, he'⟩ := ih he
      exact ⟨n₁, by omega, he'⟩

/-! ## Simulation -/

/-- If steps are to be kept `within` bounds, the second number of steps is no larger. -/
def Within (bounded : Prop) (n m : Nat) : Prop := bounded → m ≤ n

theorem Within.add {bounded : Prop} {n m n' m' : Nat} (h : Within bounded n m)
    (h' : Within bounded n' m') : Within bounded (n + n') (m + m') :=
  fun hb ↦ Nat.add_le_add (h hb) (h' hb)

/-- From the two states: either the second code ends as the first does, or both can be brought to
states that are related again, the first after at least one step. -/
def Advances (ip : Reg) (bounded : Prop) (code code' : Code)
    (related : Nat → Registers → Nat → Registers → Prop) (final : Registers → Registers → Prop)
    (line : Nat) (r : Registers) (line' : Nat) (q : Registers) : Prop :=
  ∀ n r', Ends ip code line r n r' →
    (∃ m q', Ends ip code' line' q m q' ∧ Within bounded n m ∧ final r' q') ∨
    ∃ k n₁ line₁ r₁ m line₁' q₁, n = k + n₁ ∧ 0 < k ∧ Ends ip code line₁ r₁ n₁ r' ∧
      Reaches ip code' line' q m line₁' q₁ ∧ Within bounded k m ∧ related line₁ r₁ line₁' q₁

/-- **If related states always advance to related states, then what the first code ends in is
matched by what the second code ends in.** -/
theorem ends_of_advances {bounded : Prop} {code' : Code}
    {related : Nat → Registers → Nat → Registers → Prop} {final : Registers → Registers → Prop}
    (hadv : ∀ {line r line' q}, related line r line' q →
      Advances ip bounded code code' related final line r line' q)
    {line line' n : Nat} {r r' q : Registers} (hrel : related line r line' q)
    (h : Ends ip code line r n r') :
    ∃ m q', Ends ip code' line' q m q' ∧ Within bounded n m ∧ final r' q' := by
  -- on the steps to the end, of which every advance takes off at least one
  induction n using Nat.strongRecOn generalizing line r line' q with
  | ind n ih =>
    rcases hadv hrel n r' h with
      hend | ⟨k, n₁, line₁, r₁, m, line₁', q₁, rfl, hk, he, hr, hb, hrel₁⟩
    · exact hend
    · obtain ⟨m₁, q', he', hb', hf⟩ := ih n₁ (by omega) hrel₁ he
      exact ⟨m + m₁, q', hr.ends he', hb.add hb', hf⟩

/-! ## Moving in step

Where each code can be said to move on its own, whether or not it comes to an end, one statement
serves both directions. -/

/-- From the two states both codes end, or both move to states that are related again; the second
takes no more steps than the first, but some. -/
def Lockstep (ip : Reg) (code code' : Code)
    (related : Nat → Registers → Nat → Registers → Prop) (final : Registers → Registers → Prop)
    (line : Nat) (r : Registers) (line' : Nat) (q : Registers) : Prop :=
  (∃ n m r' q', Ends ip code line r n r' ∧ Ends ip code' line' q m q' ∧ m ≤ n ∧ final r' q') ∨
  ∃ k m line₁ r₁ line₁' q₁, 0 < m ∧ m ≤ k ∧ Reaches ip code line r k line₁ r₁ ∧
    Reaches ip code' line' q m line₁' q₁ ∧ related line₁ r₁ line₁' q₁

section

variable {code' : Code} {related : Nat → Registers → Nat → Registers → Prop}
  {final : Registers → Registers → Prop}

theorem ends_of_lockstep
    (hstep : ∀ {line r line' q}, related line r line' q →
      Lockstep ip code code' related final line r line' q)
    {line line' n : Nat} {r r' q : Registers} (hrel : related line r line' q)
    (h : Ends ip code line r n r') :
    ∃ m q', Ends ip code' line' q m q' ∧ m ≤ n ∧ final r' q' := by
  have hadv : ∀ {line r line' q}, related line r line' q →
      Advances ip True code code' related final line r line' q := by
    intro line r line' q hrel n r' he
    rcases hstep hrel with ⟨n', m, r'', q', he', hq, hm, hf⟩ |
      ⟨k, m, line₁, r₁, line₁', q₁, hpos, hm, hr, hq, hrel₁⟩
    · obtain ⟨rfl, rfl⟩ := he.unique he'
      exact .inl ⟨m, q', hq, fun _ ↦ hm, hf⟩
    · obtain ⟨n₁, rfl, he₁⟩ := he.of_reaches hr
      exact .inr ⟨k, n₁, line₁, r₁, m, line₁', q₁, rfl, by omega, he₁, hq, fun _ ↦ hm, hrel₁⟩
  obtain ⟨m, q', hq, hm, hf⟩ := ends_of_advances hadv hrel h
  exact ⟨m, q', hq, hm trivial, hf⟩

theorem ends_back_of_lockstep
    (hstep : ∀ {line r line' q}, related line r line' q →
      Lockstep ip code code' related final line r line' q)
    {line line' m : Nat} {r q q' : Registers} (hrel : related line r line' q)
    (h : Ends ip code' line' q m q') : ∃ n r', Ends ip code line r n r' ∧ final r' q' := by
  -- read backwards a move is an advance too, since the second code takes a step in it
  have hadv : ∀ {line' q line r}, related line r line' q →
      Advances ip False code' code (fun line' q line r ↦ related line r line' q)
        (fun q' r' ↦ final r' q') line' q line r := by
    intro line' q line r hrel m q' he
    rcases hstep hrel with ⟨n, m', r', q'', hr, he', -, hf⟩ |
      ⟨k, m', line₁, r₁, line₁', q₁, hpos, -, hr, hq, hrel₁⟩
    · obtain ⟨rfl, rfl⟩ := he.unique he'
      exact .inl ⟨n, r', hr, False.elim, hf⟩
    · obtain ⟨m₁, rfl, he₁⟩ := he.of_reaches hq
      exact .inr ⟨m', m₁, line₁', q₁, k, line₁, r₁, rfl, hpos, he₁, hr, False.elim, hrel₁⟩
  obtain ⟨n, r', hr, -, hf⟩ := ends_of_advances hadv hrel h
  exact ⟨n, r', hr, hf⟩

end

end Code

end Unjump
