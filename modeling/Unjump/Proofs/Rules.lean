import Unjump.Proofs.Paths

/-!
# Running by rules

In the definitions every loop, and the run as a whole, is bounded by a number of rounds besides its
budget, so that they are functions at all. What a run is meant to be has no such bound: a loop goes
on until it is left, and only the steps it takes can end it otherwise. `Task.ComesTo` and
`Code.ComesTo` give that meaning by rules. Without a budget a run that goes on forever would have no
derivation.

Within a budget every run has one, and only one (`Code.comesTo_iff`). The reason is that every
repetition of a loop takes a step, also of one whose body is empty, and so does every statement of
the outermost list. Rounds that go with the budget are therefore never what a run is short of
(`repeatUntil_eq`, `Code.runAt_of_some`), and the rules can be followed by induction on the budget.
-/

namespace Unjump

namespace Outcome

/-- Control does not go on to what follows. -/
def Leaves (o : Outcome Flow) : Prop := ∀ r n, o ≠ .done .next r n

theorem leaves_or_next (o : Outcome Flow) : o.Leaves ∨ ∃ r n, o = .done .next r n := by
  by_cases h : ∃ r n, o = .done .next r n
  · exact .inr h
  · exact .inl fun r n ho ↦ h ⟨r, n, ho⟩

theorem andThen_of_leaves {o : Outcome Flow} (h : o.Leaves)
    (g : Registers → Nat → Outcome Flow) : o.andThen g = o := by
  rcases o with ⟨_ | t | _, r, n⟩ | _ | _
  · exact absurd rfl (h r n)
  all_goals rfl

theorem andThen_next (r : Registers) (n : Nat) (g : Registers → Nat → Outcome Flow) :
    (Outcome.done .next r n).andThen g = g r n := rfl

end Outcome

/-! ## Rounds beyond the budget -/

/-- What finished has no more left than it was given. -/
theorem Exact.le {α : Type} {f : Registers → Nat → Outcome α} (hf : Exact f) {r r' : Registers}
    {n left : Nat} {a : α} (h : f r n = .done a r' left) : left ≤ n := by
  obtain ⟨m, hn, -⟩ := hf r n a r' left h
  omega

section

variable {body : Registers → Nat → Outcome Flow} {stop : Registers → Bool}

theorem afterRound_of_stop {again : Registers → Nat → Outcome Flow} {r : Registers}
    (h : stop r = true) (n : Nat) : afterRound stop again r n = .done .next r n := by
  rw [afterRound.eq_def, if_pos h]

theorem afterRound_zero {again : Registers → Nat → Outcome Flow} {r : Registers}
    (h : stop r = false) : afterRound stop again r 0 = .exhausted := by
  rw [afterRound.eq_def, h, if_neg Bool.false_ne_true]

theorem afterRound_succ {again : Registers → Nat → Outcome Flow} {r : Registers}
    (h : stop r = false) (n : Nat) : afterRound stop again r (n + 1) = again r n := by
  rw [afterRound.eq_def, h, if_neg Bool.false_ne_true]

/-- The rounds that follow a round have fewer steps than it had. -/
theorem Exact.andThen_afterRound_congr (hbody : Exact body)
    {again again' : Registers → Nat → Outcome Flow} {r : Registers} {n : Nat}
    (h : ∀ r m, m < n → again r m = again' r m) :
    (body r n).andThen (Unjump.afterRound stop again) =
      (body r n).andThen (Unjump.afterRound stop again') := by
  rcases (body r n).leaves_or_next with ho | ⟨r', left, ho⟩
  · rw [Outcome.andThen_of_leaves ho, Outcome.andThen_of_leaves ho]
  · have hle := hbody.le ho
    rw [ho, Outcome.andThen_next, Outcome.andThen_next]
    rcases left with _ | left
    · rfl
    · simp only [Unjump.afterRound, h r' left (by omega)]

/-- A loop does not come to rounds that it has no steps for. -/
theorem repeatUntil_eq_of_le (hbody : Exact body) {rounds rounds' n : Nat} (hle : n ≤ rounds)
    (hle' : n ≤ rounds') (r : Registers) :
    repeatUntil body stop rounds r n = repeatUntil body stop rounds' r n := by
  induction rounds generalizing rounds' n r with
  | zero =>
    rcases rounds' with _ | rounds'
    · rfl
    · exact hbody.andThen_afterRound_congr fun r m hm ↦ by omega
  | succ rounds ih =>
    rcases rounds' with _ | rounds'
    · exact hbody.andThen_afterRound_congr fun r m hm ↦ by omega
    · exact hbody.andThen_afterRound_congr fun r m hm ↦ ih (by omega) (by omega) r

/-- **A loop is one round and what follows it**, with no bound on its rounds. -/
theorem repeatUntil_eq (hbody : Exact body) (r : Registers) (n : Nat) :
    repeatUntil body stop n r n =
      (body r n).andThen (afterRound stop fun r n ↦ repeatUntil body stop n r n) := by
  rw [repeatUntil_eq_of_le hbody (Nat.le_refl n) (Nat.le_succ n) r]
  exact hbody.andThen_afterRound_congr fun r m hm ↦
    repeatUntil_eq_of_le hbody (Nat.le_of_lt hm) (Nat.le_refl m) r

end

/-! ## What a run comes to -/

/-- What there is to run. -/
inductive Task where
  | stmt (s : Stmt)
  | body (body : List Stmt)
  /-- A loop before one of its rounds, and the register it counts up behind each, if it does. -/
  | loop (var? : Option Reg) (cond : Cond) (body : List Stmt)

/-- The register file at the end of a round. -/
def Registers.counted (var? : Option Reg) (r : Registers) : Registers :=
  match var? with
  | none => r
  | some var => r.set var (r.get var + 1)

namespace Task

/-- What running a task on some registers within a budget comes to. There is no bound but the
budget: a loop goes on for as long as there are steps for another round. -/
inductive ComesTo (ip : Reg) : Task → Registers → Nat → Outcome Flow → Prop
  | spent {s : Stmt} {r : Registers} : ComesTo ip (.stmt s) r 0 .exhausted
  /-- A statement without a body takes its step and is done. -/
  | flat {s : Stmt} {r : Registers} {n : Nat} (hs : s.isStructured = false) :
    ComesTo ip (.stmt s) r (n + 1) (s.exec ip r (n + 1))
  | passed {cond : Cond} {body : List Stmt} {r : Registers} {n : Nat}
    (hc : cond.holds r = false) : ComesTo ip (.stmt (.ifThen cond body)) r (n + 1) (.done .next r n)
  | entered {cond : Cond} {body : List Stmt} {r : Registers} {n : Nat} {o : Outcome Flow}
    (hc : cond.holds r = true) (hb : ComesTo ip (.body body) r n o) :
    ComesTo ip (.stmt (.ifThen cond body)) r (n + 1) o
  | doUntil {cond : Cond} {body : List Stmt} {r : Registers} {n : Nat} {o : Outcome Flow}
    (hl : ComesTo ip (.loop none cond body) r n o) :
    ComesTo ip (.stmt (.doUntil cond body)) r (n + 1) o
  | forUntil {var : Reg} {init : Expr} {cond : Cond} {body : List Stmt} {r : Registers} {n : Nat}
    {o : Outcome Flow}
    (hl : ComesTo ip (.loop (some var) cond body) (r.set var (init.eval r)) n o) :
    ComesTo ip (.stmt (.forUntil var init cond body)) r (n + 1) o
  | nil {r : Registers} {n : Nat} : ComesTo ip (.body []) r n (.done .next r n)
  | pointer {s : Stmt} {rest : List Stmt} {r : Registers} {n : Nat}
    (hw : s.writesPointer ip = true) : ComesTo ip (.body (s :: rest)) r n .fault
  | first {s : Stmt} {rest : List Stmt} {r : Registers} {n : Nat} {o : Outcome Flow}
    (hw : s.writesPointer ip = false) (hs : ComesTo ip (.stmt s) r n o) (ho : o.Leaves) :
    ComesTo ip (.body (s :: rest)) r n o
  | rest {s : Stmt} {rest : List Stmt} {r r' : Registers} {n n' : Nat} {o : Outcome Flow}
    (hw : s.writesPointer ip = false) (hs : ComesTo ip (.stmt s) r n (.done .next r' n'))
    (hr : ComesTo ip (.body rest) r' n' o) : ComesTo ip (.body (s :: rest)) r n o
  | leave {var? : Option Reg} {cond : Cond} {body : List Stmt} {r : Registers} {n : Nat}
    {o : Outcome Flow} (hb : ComesTo ip (.body body) r n o) (ho : o.Leaves) :
    ComesTo ip (.loop var? cond body) r n o
  | stop {var? : Option Reg} {cond : Cond} {body : List Stmt} {r r' : Registers} {n n' : Nat}
    (hb : ComesTo ip (.body body) r n (.done .next r' n'))
    (hc : cond.holds (r'.counted var?) = true) :
    ComesTo ip (.loop var? cond body) r n (.done .next (r'.counted var?) n')
  /-- No step is left for another round. -/
  | short {var? : Option Reg} {cond : Cond} {body : List Stmt} {r r' : Registers} {n : Nat}
    (hb : ComesTo ip (.body body) r n (.done .next r' 0))
    (hc : cond.holds (r'.counted var?) = false) : ComesTo ip (.loop var? cond body) r n .exhausted
  | again {var? : Option Reg} {cond : Cond} {body : List Stmt} {r r' : Registers} {n n' : Nat}
    {o : Outcome Flow} (hb : ComesTo ip (.body body) r n (.done .next r' (n' + 1)))
    (hc : cond.holds (r'.counted var?) = false)
    (hl : ComesTo ip (.loop var? cond body) (r'.counted var?) n' o) :
    ComesTo ip (.loop var? cond body) r n o

def round (ip : Reg) (var? : Option Reg) (body : List Stmt) : Registers → Nat → Outcome Flow :=
  match var? with
  | none => Code.exec ip body
  | some var => countedBody ip var body

def exec (ip : Reg) : Task → Registers → Nat → Outcome Flow
  | .stmt s => s.exec ip
  | .body code => Code.exec ip code
  | .loop var? cond code => fun r n ↦ repeatUntil (round ip var? code) cond.holds n r n

theorem exact_round (ip : Reg) (var? : Option Reg) (body : List Stmt) :
    Exact (round ip var? body) := by
  rcases var? with _ | var
  · exact Code.exact_exec ip body
  · exact exact_countedBody ip var body

theorem round_of_next {ip : Reg} {var? : Option Reg} {body : List Stmt} {r r' : Registers}
    {n n' : Nat} (h : Code.exec ip body r n = .done .next r' n') :
    round ip var? body r n = .done .next (r'.counted var?) n' := by
  rcases var? with _ | var
  · exact h
  · simp only [round, countedBody, h]
    rfl

theorem round_of_leaves {ip : Reg} {var? : Option Reg} {body : List Stmt} {r : Registers}
    {n : Nat} (h : (Code.exec ip body r n).Leaves) :
    round ip var? body r n = Code.exec ip body r n := by
  rcases var? with _ | var
  · rfl
  · exact Outcome.andThen_of_leaves h _

theorem exec_stmt (ip : Reg) (s : Stmt) : (Task.stmt s).exec ip = s.exec ip := rfl

theorem exec_cons {ip : Reg} {s : Stmt} (hw : s.writesPointer ip = false) (rest : List Stmt)
    (r : Registers) (n : Nat) :
    (Task.body (s :: rest)).exec ip r n = (s.exec ip r n).andThen ((Task.body rest).exec ip) := by
  rw [Task.exec, Code.exec, hw, if_neg Bool.false_ne_true]
  rfl

/-- The rules for a loop, as an equation. -/
theorem exec_loop (ip : Reg) (var? : Option Reg) (cond : Cond) (body : List Stmt) (r : Registers)
    (n : Nat) :
    (Task.loop var? cond body).exec ip r n =
      (round ip var? body r n).andThen
        (afterRound cond.holds fun r n ↦ (Task.loop var? cond body).exec ip r n) :=
  repeatUntil_eq (exact_round ip var? body) r n

/-- What the rules say is what running gives. -/
theorem ComesTo.eq_exec {ip : Reg} {task : Task} {r : Registers} {n : Nat} {o : Outcome Flow}
    (h : ComesTo ip task r n o) : o = task.exec ip r n := by
  induction h with
  | spent => rw [Task.exec, Stmt.exec]
  | flat _ => rfl
  | passed hc => simp [Task.exec, Stmt.exec, hc]
  | entered hc _ ih => simp [Task.exec, Stmt.exec, hc, ih]
  | doUntil _ ih =>
    rw [ih, Task.exec, Task.exec, Stmt.exec]
    rfl
  | forUntil _ ih =>
    rw [ih, Task.exec, Task.exec, Stmt.exec]
    rfl
  | nil => rw [Task.exec, Code.exec]
  | pointer hw => rw [Task.exec, Code.exec, if_pos hw]
  | first hw _ ho ih =>
    rw [exec_cons hw, ← exec_stmt, ← ih, Outcome.andThen_of_leaves ho]
  | rest hw _ _ ihs ihr => rw [exec_cons hw, ← exec_stmt, ← ihs, Outcome.andThen_next, ihr]
  | leave _ ho ih =>
    obtain rfl := ih
    rw [exec_loop, round_of_leaves ho]
    exact (Outcome.andThen_of_leaves ho _).symm
  | stop _ hc ih =>
    rw [exec_loop, round_of_next ih.symm, Outcome.andThen_next, afterRound_of_stop hc]
  | short _ hc ih =>
    rw [exec_loop, round_of_next ih.symm, Outcome.andThen_next, afterRound_zero hc]
  | again _ hc _ ihb ihl =>
    rw [exec_loop, round_of_next ihb.symm, Outcome.andThen_next, afterRound_succ hc, ihl]

/-- A loop comes to something if its body does, whatever it is run on. -/
theorem comesTo_loop {ip : Reg} {code : List Stmt}
    (hbody : ∀ r n, ComesTo ip (.body code) r n (Code.exec ip code r n)) (var? : Option Reg)
    (cond : Cond) (r : Registers) (n : Nat) :
    ComesTo ip (.loop var? cond code) r n ((Task.loop var? cond code).exec ip r n) := by
  -- every further round has fewer steps
  induction n using Nat.strongRecOn generalizing r with
  | ind n ih =>
    have hb := hbody r n
    rw [exec_loop]
    rcases (Code.exec ip code r n).leaves_or_next with ho | ⟨r', n', ho⟩
    · rw [round_of_leaves ho, Outcome.andThen_of_leaves ho]
      exact .leave hb ho
    · have hle := (Code.exact_exec ip code).le ho
      rw [ho] at hb
      rw [round_of_next ho, Outcome.andThen_next]
      rcases hc : cond.holds (r'.counted var?)
      · rcases n' with _ | n'
        · rw [afterRound_zero hc]
          exact .short hb hc
        · rw [afterRound_succ hc]
          exact .again hb hc (ih n' hle _)
      · rw [afterRound_of_stop hc]
        exact .stop hb hc

end Task

mutual

theorem Stmt.comesTo_exec (ip : Reg) (s : Stmt) (r : Registers) (n : Nat) :
    Task.ComesTo ip (.stmt s) r n (s.exec ip r n) := by
  rcases n with _ | n
  · rw [Stmt.exec]
    exact .spent
  match s with
  | .ifThen cond body =>
    rw [Stmt.exec]
    rcases hc : cond.holds r
    · exact .passed hc
    · exact .entered hc (Code.comesTo_exec ip body r n)
  | .doUntil cond body =>
    rw [Stmt.exec]
    exact .doUntil (Task.comesTo_loop (Code.comesTo_exec ip body) none cond r n)
  | .forUntil var init cond body =>
    rw [Stmt.exec_forUntil]
    exact .forUntil (Task.comesTo_loop (Code.comesTo_exec ip body) (some var) cond _ n)
  | .assign .. | .update .. | .compare .. | .goto _ | .branch .. | .halt => exact .flat rfl

theorem Code.comesTo_exec (ip : Reg) (body : List Stmt) (r : Registers) (n : Nat) :
    Task.ComesTo ip (.body body) r n (Code.exec ip body r n) := by
  match body with
  | [] =>
    rw [Code.exec]
    exact .nil
  | s :: rest =>
    have hs := Stmt.comesTo_exec ip s r n
    rw [Code.exec]
    rcases hw : s.writesPointer ip
    · rw [if_neg Bool.false_ne_true]
      rcases (s.exec ip r n).leaves_or_next with ho | ⟨r', n', ho⟩
      · rw [Outcome.andThen_of_leaves ho]
        exact .first hw hs ho
      · rw [ho] at hs ⊢
        exact .rest hw hs (Code.comesTo_exec ip rest r' n')
    · exact .pointer hw

end

/-- **Within every budget a statement comes to something, and to one thing only.** -/
theorem Stmt.comesTo_iff {ip : Reg} {s : Stmt} {r : Registers} {n : Nat} {o : Outcome Flow} :
    Task.ComesTo ip (.stmt s) r n o ↔ o = s.exec ip r n :=
  ⟨Task.ComesTo.eq_exec, fun h ↦ h ▸ Stmt.comesTo_exec ip s r n⟩

/-! ## Lines -/

namespace Stmt

/-- The register file a statement of the outermost list runs on. -/
def entry (ip : Reg) (line : Nat) (s : Stmt) (r : Registers) : Registers :=
  if s.writesPointer ip then r.set ip (Int64.ofNat line) else r

/-- The line to continue at, from what a statement of the outermost list leaves. -/
def exit? (ip : Reg) (line : Nat) (s : Stmt) (flow : Flow) (r : Registers) : Option Nat :=
  if s.writesPointer ip then (r.get ip + 1).line? else flow.next? (line + 1)

theorem execAt_eq (ip : Reg) (line : Nat) (s : Stmt) (r : Registers) (n : Nat) :
    s.execAt ip line r n = (s.exec ip (s.entry ip line r) n).bind fun flow r left ↦
      .done (s.exit? ip line flow r) r left := by
  rcases hw : s.writesPointer ip
  · rw [execAt_eq_bind hw]
    simp only [entry, exit?, hw, Bool.false_eq_true, if_false, id]
  · simp only [execAt, entry, exit?, hw, if_true]

theorem execAt_zero (ip : Reg) (line : Nat) (s : Stmt) (r : Registers) :
    s.execAt ip line r 0 = .exhausted := by
  rw [execAt_eq, Stmt.exec]
  rfl

theorem lt_of_execAt {ip : Reg} {line n left : Nat} {s : Stmt} {r r' : Registers}
    {next? : Option Nat} (h : s.execAt ip line r n = .done next? r' left) : left < n := by
  obtain ⟨m, hn, ht⟩ := exact_execAt ip line s r n next? r' left h
  have hpos := pos_of_takes_execAt ht
  omega

end Stmt

/-- Goes on at a line, if there is one to go on at. -/
def onward (run : Nat → Registers → Nat → Outcome Unit) (next? : Option Nat) (r : Registers)
    (n : Nat) : Outcome Unit :=
  match next? with
  | none => .done () r n
  | some next => run next r n

theorem runFrom_succ {ip : Reg} {fetch : Nat → Option Stmt} {line : Nat} {s : Stmt}
    (hs : fetch line = some s) (rounds : Nat) (r : Registers) (n : Nat) :
    runFrom ip fetch (rounds + 1) line r n =
      (s.execAt ip line r n).bind (onward (runFrom ip fetch rounds)) := by
  rw [runFrom, hs]
  rfl

/-- The lines that follow a statement have fewer steps than it had. -/
theorem Stmt.execAt_bind_congr {ip : Reg} {line n : Nat} {s : Stmt} {r : Registers}
    {run run' : Nat → Registers → Nat → Outcome Unit}
    (h : ∀ line r m, m < n → run line r m = run' line r m) :
    (s.execAt ip line r n).bind (onward run) = (s.execAt ip line r n).bind (onward run') := by
  rcases ho : s.execAt ip line r n with ⟨_ | line', r', left⟩ | _ | _
  · rfl
  · exact h line' r' left (Stmt.lt_of_execAt ho)
  · rfl
  · rfl

/-- A run does not come to rounds that it has no steps for. -/
theorem runFrom_eq_of_le (ip : Reg) (fetch : Nat → Option Stmt) {rounds rounds' n : Nat}
    (hle : n ≤ rounds) (hle' : n ≤ rounds') (line : Nat) (r : Registers) :
    runFrom ip fetch rounds line r n = runFrom ip fetch rounds' line r n := by
  induction rounds generalizing rounds' n line r with
  | zero =>
    obtain rfl : n = 0 := Nat.le_zero.mp hle
    rcases rounds' with _ | rounds'
    · rfl
    · rcases hs : fetch line with _ | s
      · rw [runFrom, runFrom, hs]
      · rw [runFrom_succ hs, Stmt.execAt_zero, runFrom, hs]
        rfl
  | succ rounds ih =>
    rcases hs : fetch line with _ | s
    · rw [runFrom.eq_def, runFrom.eq_def, hs]
    · rcases rounds' with _ | rounds'
      · obtain rfl : n = 0 := Nat.le_zero.mp hle'
        rw [runFrom_succ hs, Stmt.execAt_zero, runFrom, hs]
        rfl
      · rw [runFrom_succ hs, runFrom_succ hs]
        exact Stmt.execAt_bind_congr fun line r m hm ↦ ih (by omega) (by omega) line r

namespace Code

variable {ip : Reg} {code : Code}

/-- What running code from a line comes to, with no bound but the budget. -/
inductive ComesTo (ip : Reg) (code : Code) : Nat → Registers → Nat → Outcome Unit → Prop
  | off {line n : Nat} {r : Registers} (hs : code[line]? = none) :
    ComesTo ip code line r n (.done () r n)
  | exhausted {line n : Nat} {r : Registers} {s : Stmt} (hs : code[line]? = some s)
    (h : Task.ComesTo ip (.stmt s) (s.entry ip line r) n .exhausted) :
    ComesTo ip code line r n .exhausted
  | fault {line n : Nat} {r : Registers} {s : Stmt} (hs : code[line]? = some s)
    (h : Task.ComesTo ip (.stmt s) (s.entry ip line r) n .fault) :
    ComesTo ip code line r n .fault
  | stop {line n n' : Nat} {r r' : Registers} {s : Stmt} {flow : Flow}
    (hs : code[line]? = some s)
    (h : Task.ComesTo ip (.stmt s) (s.entry ip line r) n (.done flow r' n'))
    (hx : s.exit? ip line flow r' = none) : ComesTo ip code line r n (.done () r' n')
  | step {line line' n n' : Nat} {r r' : Registers} {s : Stmt} {flow : Flow} {o : Outcome Unit}
    (hs : code[line]? = some s)
    (h : Task.ComesTo ip (.stmt s) (s.entry ip line r) n (.done flow r' n'))
    (hx : s.exit? ip line flow r' = some line') (hl : ComesTo ip code line' r' n' o) :
    ComesTo ip code line r n o

def runAt (ip : Reg) (code : Code) (line : Nat) (r : Registers) (n : Nat) : Outcome Unit :=
  runFrom ip (fun line ↦ code[line]?) n line r n

/-- **A run is one statement and what follows it**, with no bound on its rounds. -/
theorem runAt_of_some {line : Nat} {s : Stmt} (hs : code[line]? = some s) (r : Registers)
    (n : Nat) :
    runAt ip code line r n =
      (s.exec ip (s.entry ip line r) n).bind fun flow r left ↦
        onward (runAt ip code) (s.exit? ip line flow r) r left := by
  have hround : runAt ip code line r n = (s.execAt ip line r n).bind (onward (runAt ip code)) := by
    rw [runAt, runFrom_eq_of_le ip _ (Nat.le_refl n) (Nat.le_succ n), runFrom_succ hs]
    exact Stmt.execAt_bind_congr fun line r m hm ↦
      runFrom_eq_of_le ip _ (Nat.le_of_lt hm) (Nat.le_refl m) line r
  rw [hround, Stmt.execAt_eq]
  rcases s.exec ip (s.entry ip line r) n with _ | _ | _ <;> rfl

theorem runAt_of_none {line : Nat} (hs : code[line]? = none) (r : Registers) (n : Nat) :
    runAt ip code line r n = .done () r n := by
  rw [runAt, runFrom.eq_def, hs]

theorem ComesTo.eq_runAt {line n : Nat} {r : Registers} {o : Outcome Unit}
    (h : ComesTo ip code line r n o) : o = runAt ip code line r n := by
  induction h with
  | off hs => rw [runAt_of_none hs]
  | exhausted hs h | fault hs h =>
    rw [runAt_of_some hs, ← Stmt.comesTo_iff.mp h]
    rfl
  | stop hs h hx =>
    rw [runAt_of_some hs, ← Stmt.comesTo_iff.mp h, Outcome.bind, hx]
    rfl
  | step hs h hx _ ih =>
    rw [runAt_of_some hs, ← Stmt.comesTo_iff.mp h, Outcome.bind, hx, ih]
    rfl

theorem comesTo_runAt (ip : Reg) (code : Code) (line : Nat) (r : Registers) (n : Nat) :
    ComesTo ip code line r n (runAt ip code line r n) := by
  -- every statement takes a step, so the lines that follow have fewer
  induction n using Nat.strongRecOn generalizing line r with
  | ind n ih =>
    rcases hs : code[line]? with _ | s
    · rw [runAt_of_none hs]
      exact .off hs
    · have h := Stmt.comesTo_exec ip s (s.entry ip line r) n
      rw [runAt_of_some hs]
      rcases ho : s.exec ip (s.entry ip line r) n with ⟨flow, r', left⟩ | _ | _
      · rw [ho] at h
        rcases hx : s.exit? ip line flow r' with _ | line'
        · simpa only [Outcome.bind, hx] using .stop hs h hx
        · have hlt : left < n := Stmt.lt_of_execAt (by rw [Stmt.execAt_eq, ho]; rfl)
          simpa only [Outcome.bind, hx] using .step hs h hx (ih left hlt line' r')
      · exact .exhausted hs (ho ▸ h)
      · exact .fault hs (ho ▸ h)

/-- **Within every budget code comes to something, and to one thing only.** -/
theorem comesTo_iff {n : Nat} {r : Registers} {o : Outcome Unit} :
    ComesTo ip code 0 r n o ↔ o = Code.runWithin ip code n r := by
  rw [runWithin_eq]
  exact ⟨ComesTo.eq_runAt, fun h ↦ h ▸ comesTo_runAt ip code 0 r n⟩

end Code

end Unjump
