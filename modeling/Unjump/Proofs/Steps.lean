import Unjump.Code.Exec

/-!
# How many steps a run takes

The functions that run code are given a budget and hand back what is left of it. What a run takes is
the difference, and it does not depend on the budget: if something finishes at all, it finishes
after a fixed number of steps under every budget that has as many. `Takes` is that relation, without
budgets in it, and `Exact` says that a function is described by it.

## Loops

Inside the definitions a loop is bounded by a number of rounds as well as by its budget. `Rounds`
forgets both: it lists the rounds of a loop that was left, one after the other, and is what an
induction over a loop goes along.
-/

namespace Unjump

variable {α β : Type}

/-- From `r` the run finishes after `n` steps, whatever the budget has beyond them. -/
def Takes (f : Registers → Nat → Outcome α) (r : Registers) (n : Nat) (a : α) (r' : Registers) :
    Prop :=
  ∀ k, f r (n + k) = .done a r' k

/-- Whatever finishes takes a number of steps of its own. -/
def Exact (f : Registers → Nat → Outcome α) : Prop :=
  ∀ r n a r' left, f r n = .done a r' left → ∃ m, n = m + left ∧ Takes f r m a r'

theorem Takes.unique {f : Registers → Nat → Outcome α} {r r' r'' : Registers} {n m : Nat} {a b : α}
    (h : Takes f r n a r') (h' : Takes f r m b r'') : n = m ∧ a = b ∧ r' = r'' := by
  have hn := h m
  have hm := h' n
  rw [Nat.add_comm m n, hn] at hm
  cases hm
  exact ⟨rfl, rfl, rfl⟩

/-! ## How runs are put together -/

/-- What finished in two parts finished in the first. -/
theorem Outcome.exists_of_bind_eq_done {o : Outcome α} {g : α → Registers → Nat → Outcome β} {b : β}
    {r : Registers} {left : Nat} (h : o.bind g = .done b r left) :
    ∃ a r' mid, o = .done a r' mid ∧ g a r' mid = .done b r left := by
  cases o with
  | done a r' mid => exact ⟨a, r', mid, rfl, h⟩
  | exhausted => cases h
  | fault => cases h

theorem takes_done_iff {a b : α} (change : Registers → Registers) {r r' : Registers} {n : Nat} :
    Takes (fun r n ↦ .done a (change r) n) r n b r' ↔ n = 0 ∧ b = a ∧ r' = change r := by
  constructor
  · intro h
    have h0 := h 0
    cases h0
    exact ⟨rfl, rfl, rfl⟩
  · rintro ⟨rfl, rfl, rfl⟩ k
    rw [Nat.zero_add]

theorem Exact.of_done (a : α) (change : Registers → Registers) :
    Exact fun r n ↦ .done a (change r) n := by
  intro r n b r' left h
  cases h
  exact ⟨0, (Nat.zero_add n).symm, (takes_done_iff change).mpr ⟨rfl, rfl, rfl⟩⟩

theorem Takes.bind {f : Registers → Nat → Outcome α} {g : α → Registers → Nat → Outcome β}
    {r r' r'' : Registers} {n m : Nat} {a : α} {b : β} (hf : Takes f r n a r')
    (hg : Takes (g a) r' m b r'') : Takes (fun r n ↦ (f r n).bind g) r (n + m) b r'' := by
  intro k
  simp only [Nat.add_assoc, hf (m + k), Outcome.bind]
  exact hg k

theorem Exact.bind {f : Registers → Nat → Outcome α} {g : α → Registers → Nat → Outcome β}
    (hf : Exact f) (hg : ∀ a, Exact (g a)) : Exact fun r n ↦ (f r n).bind g := by
  intro r n b r'' left h
  obtain ⟨a, r', mid, hfr, hgr⟩ := Outcome.exists_of_bind_eq_done h
  obtain ⟨m₁, hn, hm₁⟩ := hf r n a r' mid hfr
  obtain ⟨m₂, hmid, hm₂⟩ := hg a r' mid b r'' left hgr
  exact ⟨m₁ + m₂, by omega, hm₁.bind hm₂⟩

/-- What finished one after the other took the sum of the steps. -/
theorem takes_bind_iff {f : Registers → Nat → Outcome α} {g : α → Registers → Nat → Outcome β}
    (hf : Exact f) (hg : ∀ a, Exact (g a)) {r r'' : Registers} {n : Nat} {b : β} :
    Takes (fun r n ↦ (f r n).bind g) r n b r'' ↔
      ∃ m₁ m₂ a r', n = m₁ + m₂ ∧ Takes f r m₁ a r' ∧ Takes (g a) r' m₂ b r'' := by
  constructor
  · intro h
    obtain ⟨a, r', mid, hfr, hgr⟩ := Outcome.exists_of_bind_eq_done (h 0)
    obtain ⟨m₁, hn, hm₁⟩ := hf r (n + 0) a r' mid hfr
    obtain ⟨m₂, hmid, hm₂⟩ := hg a r' mid b r'' 0 hgr
    exact ⟨m₁, m₂, a, r', by omega, hm₁, hm₂⟩
  · rintro ⟨m₁, m₂, a, r', rfl, hf', hg'⟩
    exact hf'.bind hg'

/-- What `Outcome.andThen` does with the flow it is handed. -/
def resume (g : Registers → Nat → Outcome Flow) : Flow → Registers → Nat → Outcome Flow
  | .next => g
  | flow => fun r left ↦ .done flow r left

theorem andThen_eq_bind (o : Outcome Flow) (g : Registers → Nat → Outcome Flow) :
    o.andThen g = o.bind (resume g) := by
  unfold Outcome.andThen
  congr 1
  funext flow r left
  cases flow <;> rfl

theorem Exact.resume {g : Registers → Nat → Outcome Flow} (hg : Exact g) (flow : Flow) :
    Exact (Unjump.resume g flow) := by
  cases flow with
  | next => exact hg
  | goto t => exact .of_done _ id
  | halt => exact .of_done _ id

theorem Exact.andThen {f g : Registers → Nat → Outcome Flow} (hf : Exact f) (hg : Exact g) :
    Exact fun r n ↦ (f r n).andThen g := by
  simp only [andThen_eq_bind]
  exact hf.bind hg.resume

/-- Either the first part sends control elsewhere and is all, or it hands over to the second. -/
theorem takes_andThen_iff {f g : Registers → Nat → Outcome Flow} (hf : Exact f) (hg : Exact g)
    {r r'' : Registers} {n : Nat} {flow : Flow} :
    Takes (fun r n ↦ (f r n).andThen g) r n flow r'' ↔
      flow ≠ .next ∧ Takes f r n flow r'' ∨
        ∃ m₁ m₂ r', n = m₁ + m₂ ∧ Takes f r m₁ .next r' ∧ Takes g r' m₂ flow r'' := by
  simp only [andThen_eq_bind]
  rw [takes_bind_iff hf hg.resume]
  constructor
  · rintro ⟨m₁, m₂, first, r', rfl, hf', hg'⟩
    cases first with
    | next => exact .inr ⟨m₁, m₂, r', rfl, hf', hg'⟩
    | goto t =>
      obtain ⟨rfl, rfl, rfl⟩ := (takes_done_iff id).mp hg'
      exact .inl ⟨by simp, hf'⟩
    | halt =>
      obtain ⟨rfl, rfl, rfl⟩ := (takes_done_iff id).mp hg'
      exact .inl ⟨by simp, hf'⟩
  · rintro (⟨hne, hf'⟩ | ⟨m₁, m₂, r', rfl, hf', hg'⟩)
    · refine ⟨n, 0, flow, r'', rfl, hf', ?_⟩
      cases flow with
      | next => exact absurd rfl hne
      | goto t => exact (takes_done_iff id).mpr ⟨rfl, rfl, rfl⟩
      | halt => exact (takes_done_iff id).mpr ⟨rfl, rfl, rfl⟩
    · exact ⟨m₁, m₂, .next, r', rfl, hf', hg'⟩

/-- Takes one step of the budget first. -/
def afterTick (f : Registers → Nat → Outcome α) (r : Registers) : Nat → Outcome α
  | 0 => .exhausted
  | left + 1 => f r left

theorem takes_afterTick_iff {f : Registers → Nat → Outcome α} {r r' : Registers} {n : Nat} {a : α} :
    Takes (afterTick f) r n a r' ↔ ∃ m, n = m + 1 ∧ Takes f r m a r' := by
  constructor
  · intro h
    cases n with
    | zero => cases h 0
    | succ m =>
      refine ⟨m, rfl, fun k ↦ ?_⟩
      have hk := h k
      rwa [Nat.succ_add] at hk
  · rintro ⟨m, rfl, h⟩ k
    rw [Nat.succ_add]
    exact h k

theorem Exact.afterTick {f : Registers → Nat → Outcome α} (hf : Exact f) :
    Exact (Unjump.afterTick f) := by
  intro r n a r' left h
  cases n with
  | zero => cases h
  | succ n =>
    obtain ⟨m, hn, hm⟩ := hf r n a r' left h
    exact ⟨m + 1, by omega, takes_afterTick_iff.mpr ⟨m, rfl, hm⟩⟩

/-! ## Loops -/

/-- The rounds of a loop that was left: the body ran to its end with `stop` not yet holding, any
number of times, and then either sent control elsewhere or ended with `stop` holding. -/
inductive Rounds (body : Registers → Nat → Outcome Flow) (stop : Registers → Bool) :
    Registers → Nat → Flow → Registers → Prop
  | leave {r r' : Registers} {n : Nat} {flow : Flow} (hb : Takes body r n flow r')
    (hne : flow ≠ .next) : Rounds body stop r n flow r'
  | stop {r r' : Registers} {n : Nat} (hb : Takes body r n .next r') (hs : stop r' = true) :
    Rounds body stop r n .next r'
  | again {r r' r'' : Registers} {n m : Nat} {flow : Flow} (hb : Takes body r n .next r')
    (hs : stop r' = false) (hr : Rounds body stop r' m flow r'') :
    Rounds body stop r (n + (m + 1)) flow r''

variable {body : Registers → Nat → Outcome Flow} {stop : Registers → Bool}

/-- Every repetition takes a step, so as many rounds as steps are enough. -/
theorem Rounds.repeatUntil_eq {r r' : Registers} {n : Nat} {flow : Flow}
    (h : Rounds body stop r n flow r') :
    ∀ rounds, n ≤ rounds → ∀ k, repeatUntil body stop rounds r (n + k) = .done flow r' k := by
  induction h with
  | leave hb hne =>
    rename_i flow
    intro rounds _ k
    cases flow with
    | next => exact absurd rfl hne
    | goto t => cases rounds <;> simp [repeatUntil, hb k, Outcome.andThen, Outcome.bind]
    | halt => cases rounds <;> simp [repeatUntil, hb k, Outcome.andThen, Outcome.bind]
  | stop hb hs =>
    intro rounds _ k
    cases rounds <;> simp [repeatUntil, hb k, Outcome.andThen, Outcome.bind, afterRound, hs]
  | again hb hs _ ih =>
    rename_i n m _ _
    intro rounds hle k
    cases rounds with
    | zero => omega
    | succ rounds =>
      -- to begin another round took a step, and it takes a round off the bound as well
      rw [show n + (m + 1) + k = n + (m + k + 1) from by omega]
      simp [repeatUntil, hb (m + k + 1), Outcome.andThen, Outcome.bind, afterRound, hs,
        ih rounds (by omega) k]

theorem rounds_of_afterRound (hbody : Exact body) {again : Registers → Nat → Outcome Flow}
    {r r' : Registers} {n left : Nat} {flow : Flow}
    (h : (body r n).andThen (afterRound stop again) = .done flow r' left)
    (hagain : ∀ r n, again r n = .done flow r' left →
      ∃ m, n = m + left ∧ Rounds body stop r m flow r') :
    ∃ m, n = m + left ∧ Rounds body stop r m flow r' := by
  rw [andThen_eq_bind] at h
  obtain ⟨first, r₁, mid, hb, h⟩ := Outcome.exists_of_bind_eq_done h
  obtain ⟨m, rfl, hm⟩ := hbody r n first r₁ mid hb
  cases first with
  | next =>
    by_cases hs : stop r₁
    · simp only [resume, afterRound, hs, if_true, Outcome.done.injEq] at h
      obtain ⟨rfl, rfl, rfl⟩ := h
      exact ⟨m, rfl, .stop hm hs⟩
    · cases mid with
      -- another round is not begun without a step left
      | zero => simp [resume, afterRound, hs] at h
      | succ mid =>
        simp only [resume, afterRound, hs] at h
        obtain ⟨m', rfl, hr⟩ := hagain r₁ mid h
        exact ⟨m + (m' + 1), by omega, .again hm (by simpa using hs) hr⟩
  | goto t =>
    cases h
    exact ⟨m, rfl, .leave hm (by simp)⟩
  | halt =>
    cases h
    exact ⟨m, rfl, .leave hm (by simp)⟩

theorem rounds_of_repeatUntil (hbody : Exact body) {rounds : Nat} {r r' : Registers} {n left : Nat}
    {flow : Flow} (h : repeatUntil body stop rounds r n = .done flow r' left) :
    ∃ m, n = m + left ∧ Rounds body stop r m flow r' := by
  induction rounds generalizing r n with
  | zero => exact rounds_of_afterRound hbody h fun r n h ↦ by cases h
  | succ rounds ih => exact rounds_of_afterRound hbody h fun r n h ↦ ih h

/-- **A loop that has its budget for its number of rounds takes the steps of its rounds.** -/
theorem takes_repeatUntil_iff (hbody : Exact body) {r r' : Registers} {n : Nat} {flow : Flow} :
    Takes (fun r n ↦ repeatUntil body stop n r n) r n flow r' ↔ Rounds body stop r n flow r' := by
  constructor
  · intro h
    obtain ⟨m, hn, hr⟩ := rounds_of_repeatUntil hbody (h 0)
    rwa [show n = m from by omega]
  · intro h k
    exact h.repeatUntil_eq (n + k) (Nat.le_add_right n k) k

theorem Exact.repeatUntil (hbody : Exact body) :
    Exact fun r n ↦ Unjump.repeatUntil body stop n r n := by
  intro r n flow r' left h
  obtain ⟨m, hn, hr⟩ := rounds_of_repeatUntil hbody h
  exact ⟨m, hn, (takes_repeatUntil_iff hbody).mpr hr⟩

/-- If whatever the body does is done by another body too, so it is with loops. The steps may
differ, as `cost` allows. -/
theorem Rounds.imp {body' : Registers → Nat → Outcome Flow} (cost : Nat → Nat → Prop)
    (hadd : ∀ {a b c d}, cost a b → cost c d → cost (a + (c + 1)) (b + (d + 1)))
    (hbody : ∀ {r n flow r'}, Takes body r n flow r' → ∃ m, cost n m ∧ Takes body' r m flow r')
    {r r' : Registers} {n : Nat} {flow : Flow} (h : Rounds body stop r n flow r') :
    ∃ m, cost n m ∧ Rounds body' stop r m flow r' := by
  induction h with
  | leave hb hne =>
    obtain ⟨m, hc, hb'⟩ := hbody hb
    exact ⟨m, hc, .leave hb' hne⟩
  | stop hb hs =>
    obtain ⟨m, hc, hb'⟩ := hbody hb
    exact ⟨m, hc, .stop hb' hs⟩
  | again hb hs _ ih =>
    obtain ⟨m, hc, hb'⟩ := hbody hb
    obtain ⟨m', hc', hr'⟩ := ih
    exact ⟨m + (m' + 1), hadd hc hc', .again hb' hs hr'⟩

/-- A loop that sends control elsewhere does so from a round of its body. -/
theorem Rounds.exists_takes {r r' : Registers} {n : Nat} {flow : Flow}
    (h : Rounds body stop r n flow r') (hne : flow ≠ .next) : ∃ r₁ m, Takes body r₁ m flow r' := by
  induction h with
  | leave hb _ => exact ⟨_, _, hb⟩
  | stop _ _ => exact absurd rfl hne
  | again _ _ _ ih => exact ih hne

/-! ## Statements and code -/

/-- The body of a counting loop with the counting behind it. -/
def countedBody (ip var : Reg) (body : List Stmt) (r : Registers) (left : Nat) : Outcome Flow :=
  (Code.exec ip body r left).andThen fun r left ↦ .done .next (r.set var (r.get var + 1)) left

namespace Stmt

theorem exec_ifThen (ip : Reg) (cond : Cond) (body : List Stmt) :
    (ifThen cond body).exec ip = afterTick fun r left ↦
      if cond.holds r then Code.exec ip body r left else .done .next r left := by
  funext r n
  cases n <;> rw [Stmt.exec, afterTick]

theorem exec_doUntil (ip : Reg) (cond : Cond) (body : List Stmt) :
    (doUntil cond body).exec ip = afterTick fun r left ↦
      repeatUntil (Code.exec ip body) cond.holds left r left := by
  funext r n
  cases n <;> rw [Stmt.exec, afterTick]

theorem exec_forUntil (ip var : Reg) (init : Expr) (cond : Cond) (body : List Stmt) :
    (forUntil var init cond body).exec ip = afterTick fun r left ↦
      repeatUntil (countedBody ip var body) cond.holds left (r.set var (init.eval r)) left := by
  funext r n
  cases n <;> rw [Stmt.exec, afterTick]
  rfl

/-- Statements without a body take one step and are done. -/
theorem takes_of_tick {ip : Reg} {s : Stmt} {r r' : Registers} {flow : Flow}
    (h : ∀ left, s.exec ip r (left + 1) = .done flow r' left) : Takes (s.exec ip) r 1 flow r' := by
  intro k
  rw [Nat.add_comm]
  exact h k

end Stmt

/-- A counting loop starts on the register file that has the first value. -/
theorem Exact.comp_set {f : Registers → Nat → Outcome α} (hf : Exact f)
    (change : Registers → Registers) : Exact fun r n ↦ f (change r) n := by
  intro r n a r' left h
  obtain ⟨m, hn, hm⟩ := hf (change r) n a r' left h
  exact ⟨m, hn, fun k ↦ hm k⟩

mutual

theorem Stmt.exact_exec (ip : Reg) (s : Stmt) : Exact (s.exec ip) := by
  have flat {change : Registers → Registers} {flow : Registers → Flow}
      (h : ∀ r left, s.exec ip r (left + 1) = .done (flow r) (change r) left) :
      Exact (s.exec ip) := by
    intro r n a r' left hdone
    cases n with
    | zero => rw [Stmt.exec] at hdone; cases hdone
    | succ n =>
      rw [h r n] at hdone
      cases hdone
      exact ⟨1, by omega, Stmt.takes_of_tick (h r)⟩
  cases s with
  | ifThen cond body =>
    rw [Stmt.exec_ifThen]
    refine Exact.afterTick fun r n flow r' left h ↦ ?_
    by_cases hc : cond.holds r
    · simp only [hc, if_true] at h
      obtain ⟨m, hn, hm⟩ := Code.exact_exec ip body r n flow r' left h
      exact ⟨m, hn, fun k ↦ by simp only [hc, if_true, hm k]⟩
    · simp only [hc] at h
      cases h
      exact ⟨0, by omega, fun k ↦ by simp [hc]⟩
  | doUntil cond body =>
    rw [Stmt.exec_doUntil]
    exact (Code.exact_exec ip body).repeatUntil.afterTick
  | forUntil var init cond body =>
    rw [Stmt.exec_forUntil]
    have hcounted : Exact (countedBody ip var body) :=
      (Code.exact_exec ip body).andThen (.of_done Flow.next fun r ↦ r.set var (r.get var + 1))
    exact (hcounted.repeatUntil.comp_set fun r ↦ r.set var (init.eval r)).afterTick
  | assign dest value => exact flat fun r left ↦ by rw [Stmt.exec]
  | update op dest value => exact flat fun r left ↦ by rw [Stmt.exec]
  | compare cond dest => exact flat fun r left ↦ by rw [Stmt.exec]
  | goto target => exact flat fun r left ↦ by rw [Stmt.exec]
  | branch cond ifTrue ifFalse => exact flat fun r left ↦ by rw [Stmt.exec]
  | halt => exact flat fun r left ↦ by rw [Stmt.exec]

theorem Code.exact_exec (ip : Reg) (body : List Stmt) : Exact (Code.exec ip body) := by
  cases body with
  | nil =>
    intro r n flow r' left h
    rw [Code.exec] at h
    cases h
    exact ⟨0, by omega, fun k ↦ by rw [Code.exec, Nat.zero_add]⟩
  | cons s rest =>
    intro r n flow r' left h
    by_cases hw : s.writesPointer ip
    · rw [Code.exec, if_pos hw] at h
      cases h
    · rw [Code.exec, if_neg hw] at h
      obtain ⟨m, hn, hm⟩ :=
        (Stmt.exact_exec ip s).andThen (Code.exact_exec ip rest) r n flow r' left h
      refine ⟨m, hn, fun k ↦ ?_⟩
      rw [Code.exec, if_neg hw]
      exact hm k

end

/-! ## What each form of statement takes -/

section

variable {ip : Reg} {cond : Cond} {body : List Stmt} {r r' : Registers} {n : Nat} {flow : Flow}

theorem takes_ifThen_iff :
    Takes ((Stmt.ifThen cond body).exec ip) r n flow r' ↔
      ∃ m, n = m + 1 ∧
        (cond.holds r = true ∧ Takes (Code.exec ip body) r m flow r' ∨
          cond.holds r = false ∧ m = 0 ∧ flow = .next ∧ r' = r) := by
  rw [Stmt.exec_ifThen, takes_afterTick_iff]
  refine exists_congr fun m ↦ and_congr_right fun _ ↦ ?_
  by_cases hc : cond.holds r
  · simp [Takes, hc]
  · simp only [Takes, hc, Bool.false_eq_true, if_false, false_and, false_or, true_and]
    exact takes_done_iff id

theorem takes_doUntil_iff :
    Takes ((Stmt.doUntil cond body).exec ip) r n flow r' ↔
      ∃ m, n = m + 1 ∧ Rounds (Code.exec ip body) cond.holds r m flow r' := by
  rw [Stmt.exec_doUntil, takes_afterTick_iff]
  simp only [takes_repeatUntil_iff (Code.exact_exec ip body)]

theorem exact_countedBody (ip var : Reg) (body : List Stmt) : Exact (countedBody ip var body) :=
  (Code.exact_exec ip body).andThen (.of_done Flow.next fun r ↦ r.set var (r.get var + 1))

theorem takes_countedBody_iff {var : Reg} :
    Takes (countedBody ip var body) r n flow r' ↔
      flow ≠ .next ∧ Takes (Code.exec ip body) r n flow r' ∨
        flow = .next ∧ ∃ r₁, Takes (Code.exec ip body) r n .next r₁ ∧
          r' = r₁.set var (r₁.get var + 1) := by
  unfold countedBody
  rw [takes_andThen_iff (Code.exact_exec ip body)
    (.of_done Flow.next fun r ↦ r.set var (r.get var + 1))]
  refine or_congr_right ?_
  simp only [takes_done_iff]
  constructor
  · rintro ⟨m₁, _, r₁, rfl, h, rfl, rfl, rfl⟩
    exact ⟨rfl, r₁, h, rfl⟩
  · rintro ⟨rfl, r₁, h, rfl⟩
    exact ⟨n, 0, r₁, rfl, h, rfl, rfl, rfl⟩

theorem takes_forUntil_iff {var : Reg} {init : Expr} :
    Takes ((Stmt.forUntil var init cond body).exec ip) r n flow r' ↔
      ∃ m, n = m + 1 ∧
        Rounds (countedBody ip var body) cond.holds (r.set var (init.eval r)) m flow r' := by
  rw [Stmt.exec_forUntil, takes_afterTick_iff]
  refine exists_congr fun m ↦ and_congr_right fun _ ↦ ?_
  exact takes_repeatUntil_iff (exact_countedBody ip var body)

theorem takes_nil_iff : Takes (Code.exec ip []) r n flow r' ↔ n = 0 ∧ flow = .next ∧ r' = r := by
  have h : Code.exec ip [] = fun r n ↦ .done .next (id r) n := by
    funext r n
    rw [Code.exec, id]
  rw [h, takes_done_iff, id]

theorem takes_cons_iff {s : Stmt} {rest : List Stmt} :
    Takes (Code.exec ip (s :: rest)) r n flow r' ↔
      s.writesPointer ip = false ∧
        (flow ≠ .next ∧ Takes (s.exec ip) r n flow r' ∨
          ∃ m₁ m₂ r₁, n = m₁ + m₂ ∧ Takes (s.exec ip) r m₁ .next r₁ ∧
            Takes (Code.exec ip rest) r₁ m₂ flow r') := by
  by_cases hw : s.writesPointer ip
  · constructor
    · intro h
      have h0 := h 0
      rw [Code.exec, if_pos hw] at h0
      cases h0
    · rintro ⟨hw', -⟩
      rw [hw] at hw'
      cases hw'
  · have heq : Code.exec ip (s :: rest) =
        fun r n ↦ (s.exec ip r n).andThen (Code.exec ip rest) := by
      funext r n
      rw [Code.exec, if_neg hw]
    rw [heq, takes_andThen_iff (Stmt.exact_exec ip s) (Code.exact_exec ip rest)]
    simp [hw]

theorem takes_append_iff {first second : List Stmt} :
    Takes (Code.exec ip (first ++ second)) r n flow r' ↔
      flow ≠ .next ∧ Takes (Code.exec ip first) r n flow r' ∨
        ∃ m₁ m₂ r₁, n = m₁ + m₂ ∧ Takes (Code.exec ip first) r m₁ .next r₁ ∧
          Takes (Code.exec ip second) r₁ m₂ flow r' := by
  induction first generalizing r n with
  | nil =>
    rw [List.nil_append]
    constructor
    · intro h
      exact .inr ⟨0, n, r, by omega, takes_nil_iff.mpr ⟨rfl, rfl, rfl⟩, h⟩
    · rintro (⟨hne, h⟩ | ⟨m₁, m₂, r₁, rfl, h, h'⟩)
      · exact absurd (takes_nil_iff.mp h).2.1 hne
      · obtain ⟨rfl, -, rfl⟩ := takes_nil_iff.mp h
        rwa [Nat.zero_add]
  | cons s rest ih =>
    simp only [List.cons_append, takes_cons_iff, ih]
    constructor
    · rintro ⟨hw, ⟨hne, h⟩ | ⟨m₁, m₂, r₁, rfl, h, ⟨hne, h'⟩ | ⟨m₃, m₄, r₂, rfl, h', h''⟩⟩⟩
      · exact .inl ⟨hne, hw, .inl ⟨hne, h⟩⟩
      · exact .inl ⟨hne, hw, .inr ⟨m₁, m₂, r₁, rfl, h, h'⟩⟩
      · exact .inr ⟨m₁ + m₃, m₄, r₂, by omega, ⟨hw, .inr ⟨m₁, m₃, r₁, rfl, h, h'⟩⟩, h''⟩
    · rintro (⟨hne, hw, ⟨-, h⟩ | ⟨m₁, m₂, r₁, rfl, h, h'⟩⟩ |
        ⟨m, m₄, r₂, rfl, ⟨hw, ⟨hne, -⟩ | ⟨m₁, m₃, r₁, rfl, h, h'⟩⟩, h''⟩)
      · exact ⟨hw, .inl ⟨hne, h⟩⟩
      · exact ⟨hw, .inr ⟨m₁, m₂, r₁, rfl, h, .inl ⟨hne, h'⟩⟩⟩
      · exact absurd rfl hne
      · exact ⟨hw, .inr ⟨m₁, m₃ + m₄, r₁, by omega, h, .inr ⟨m₃, m₄, r₂, rfl, h', h''⟩⟩⟩

end

/-! ## Every statement takes a step -/

theorem Stmt.pos_of_takes {ip : Reg} {s : Stmt} {r r' : Registers} {n : Nat} {flow : Flow}
    (h : Takes (s.exec ip) r n flow r') : 0 < n := by
  cases n with
  | zero =>
    have h0 := h 0
    rw [Stmt.exec] at h0
    cases h0
  | succ n => exact Nat.succ_pos n

end Unjump
