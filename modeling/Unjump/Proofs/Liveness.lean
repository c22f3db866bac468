import Unjump.Proofs.Renumbering

/-!
# Live registers

A register is *live* at a line of flat code if what it holds there may still matter: some path from
the line comes to a statement that reads the register, and nothing before that statement stores into
it. Two runs that agree on the live registers do the same from there on, so what a register holds
where it is not live can be anything.

## Control flow

The paths are those of the control-flow graph: a branch may go either way, whatever its condition.
After an assignment to the pointer control may go to the next line or past it, which is what a skip
by a flag does. Other assignments to the pointer are not covered.

## Ends

Whether a register matters at the end of a run depends on who looks at it, so the registers that
are read there are a parameter, the list `outputs`.
-/

namespace Unjump

/-! ## What a statement reads and writes -/

namespace Stmt

/-- The expressions that a statement computes itself, those in its body left out. -/
def exprs : Stmt → List Expr
  | assign _ value | update _ _ value => [value]
  | compare cond _ | branch cond _ _ | ifThen cond _ | doUntil cond _ => [cond.toExpr]
  | forUntil _ init cond _ => [init, cond.toExpr]
  | goto _ | halt => []

/-- The register that a flat statement stores into. -/
def dest? : Stmt → Option Reg
  | assign dest _ | update _ dest _ | compare _ dest => some dest
  | _ => none

/-- Whether a statement changes a register by what it holds. -/
def updates (i : Reg) : Stmt → Bool
  | update _ dest _ => dest == i
  | _ => false

/-- Whether what a flat statement does depends on the content of a register. -/
def reads (i : Reg) (s : Stmt) : Bool := s.updates i || s.exprs.any (Expr.reads i)

/-- The lines at which control may continue after a flat statement. -/
def successors (ip : Reg) (line : Nat) (s : Stmt) : List Nat :=
  if s.writesPointer ip then [line + 1, line + 2]
  else
    match s with
    | goto target => [target]
    | branch _ ifTrue ifFalse => [ifTrue, ifFalse]
    | halt => []
    | _ => [line + 1]

end Stmt

/-- Expressions have the same value where the registers they read do. -/
theorem Expr.eval_congr {r q : Registers} (e : Expr)
    (h : ∀ i, e.reads i = true → r.get i = q.get i) : e.eval r = e.eval q := by
  induction e with
  | reg j => exact h j (by simp [reads])
  | lit w => rfl
  | bin op lhs rhs ihl ihr =>
    have hl := ihl fun i hi ↦ h i (by simp [reads, hi])
    have hr := ihr fun i hi ↦ h i (by simp [reads, hi])
    rw [eval, eval, hl, hr]

/-- Two register files after the same store: they agree where it went, and are as they were
elsewhere. -/
structure Registers.SameChange (dest? : Option Reg) (r q r' q' : Registers) : Prop where
  same : ∀ i, dest? = some i → r'.get i = q'.get i
  frame : ∀ i, dest? ≠ some i → r'.get i = r.get i ∧ q'.get i = q.get i

theorem Registers.SameChange.set (r q : Registers) (dest : Reg) (w : Word) :
    SameChange (some dest) r q (r.set dest w) (q.set dest w) where
  same i hi := by
    cases hi
    rw [get_set_self, get_set_self]
  frame i hi := by
    have hne : dest ≠ i := fun heq ↦ hi (congrArg some heq)
    rw [get_set_of_ne r hne, get_set_of_ne q hne]
    exact ⟨rfl, rfl⟩

theorem Registers.SameChange.none (r q : Registers) : SameChange none r q r q where
  same i hi := by cases hi
  frame _ _ := ⟨rfl, rfl⟩

/-- **A flat statement takes one step, and does the same on register files that agree on what it
reads.** Control then continues at one of its successors, unless it is a `halt`. -/
theorem Stmt.takes_of_agree (ip : Reg) {s : Stmt} (hflat : s.isStructured = false)
    {r q : Registers} (h : ∀ i, s.reads i = true → r.get i = q.get i) :
    ∃ flow r' q', Takes (s.exec ip) r 1 flow r' ∧ Takes (s.exec ip) q 1 flow q' ∧
      Registers.SameChange s.dest? r q r' q' ∧ (flow = .halt → s = .halt) ∧
      (s.writesPointer ip = false → ∀ line next, flow.next? (line + 1) = some next →
        next ∈ s.successors ip line) := by
  have heval : ∀ e ∈ s.exprs, e.eval r = e.eval q := by
    intro e he
    refine e.eval_congr fun i hi ↦ h i ?_
    rw [Stmt.reads, Bool.or_eq_true, List.any_eq_true]
    exact .inr ⟨e, he, hi⟩
  -- what stores and goes on to the next line
  have stored {dest : Reg} {w : Word} (hd : s.dest? = some dest)
      (hr : ∀ left, s.exec ip r (left + 1) = .done .next (r.set dest w) left)
      (hq : ∀ left, s.exec ip q (left + 1) = .done .next (q.set dest w) left)
      (hnext : s.writesPointer ip = false → ∀ line, line + 1 ∈ s.successors ip line) :
      ∃ flow r' q', Takes (s.exec ip) r 1 flow r' ∧ Takes (s.exec ip) q 1 flow q' ∧
        Registers.SameChange s.dest? r q r' q' ∧ (flow = .halt → s = .halt) ∧
        (s.writesPointer ip = false → ∀ line next, flow.next? (line + 1) = some next →
          next ∈ s.successors ip line) := by
    refine ⟨.next, _, _, Stmt.takes_of_tick hr, Stmt.takes_of_tick hq, hd ▸ .set r q dest w,
      nofun, fun hw line next h ↦ ?_⟩
    cases h
    exact hnext hw line
  cases s with
  | assign dest value =>
    have hv : value.eval r = value.eval q := heval value (by simp [Stmt.exprs])
    refine stored rfl (fun left ↦ by rw [Stmt.exec]) (fun left ↦ by rw [Stmt.exec, hv]) ?_
    intro hw line
    simp [Stmt.successors, hw]
  | update op dest value =>
    have hv : value.eval r = value.eval q := heval value (by simp [Stmt.exprs])
    have hd : r.get dest = q.get dest := h dest (by simp [Stmt.reads, Stmt.updates])
    refine stored rfl (fun left ↦ by rw [Stmt.exec]) (fun left ↦ by rw [Stmt.exec, hv, hd]) ?_
    intro hw line
    simp [Stmt.successors, hw]
  | compare cond dest =>
    have hv : cond.eval r = cond.eval q := heval cond.toExpr (by simp [Stmt.exprs])
    refine stored rfl (fun left ↦ by rw [Stmt.exec]) (fun left ↦ by rw [Stmt.exec, hv]) ?_
    intro hw line
    simp [Stmt.successors, hw]
  | goto target =>
    refine ⟨.goto target, r, q, Stmt.takes_of_tick fun left ↦ by rw [Stmt.exec],
      Stmt.takes_of_tick fun left ↦ by rw [Stmt.exec], .none r q, nofun, ?_⟩
    intro hw line next hnext
    cases hnext
    simp [Stmt.successors, hw]
  | branch cond ifTrue ifFalse =>
    have hv : cond.eval r = cond.eval q := heval cond.toExpr (by simp [Stmt.exprs])
    have hc : cond.holds q = cond.holds r := by rw [Cond.holds, Cond.holds, hv]
    refine ⟨.goto (if cond.holds r then ifTrue else ifFalse), r, q,
      Stmt.takes_of_tick fun left ↦ by rw [Stmt.exec],
      Stmt.takes_of_tick fun left ↦ by rw [Stmt.exec, hc], .none r q, nofun, ?_⟩
    intro hw line next hnext
    cases hnext
    rw [Stmt.successors, if_neg (by simp [hw])]
    by_cases hc : cond.holds r <;> simp [hc]
  | halt =>
    exact ⟨.halt, r, q, Stmt.takes_of_tick fun left ↦ by rw [Stmt.exec],
      Stmt.takes_of_tick fun left ↦ by rw [Stmt.exec], .none r q, fun _ ↦ rfl,
      fun _ _ _ ↦ nofun⟩
  | ifThen cond body => cases hflat
  | doUntil cond body => cases hflat
  | forUntil var init cond body => cases hflat

/-! ## Renumbered statements -/

namespace Stmt

variable (g : Nat → Nat) (s : Stmt)

@[simp]
theorem isStructured_mapTargets : (s.mapTargets g).isStructured = s.isStructured := by
  cases s <;> rfl

@[simp]
theorem exprs_mapTargets : (s.mapTargets g).exprs = s.exprs := by
  cases s <;> rfl

@[simp]
theorem dest?_mapTargets : (s.mapTargets g).dest? = s.dest? := by
  cases s <;> rfl

@[simp]
theorem reads_mapTargets (i : Reg) : (s.mapTargets g).reads i = s.reads i := by
  cases s <;> rfl

variable {g s}

theorem successors_mapTargets {ip : Reg} {line line' : Nat} (h₁ : g (line + 1) = line' + 1)
    (h₂ : s.writesPointer ip = true → g (line + 2) = line' + 2) :
    (s.mapTargets g).successors ip line' = (s.successors ip line).map g := by
  unfold successors
  rw [writesPointer_mapTargets]
  by_cases hw : s.writesPointer ip
  · simp [hw, h₁, h₂ hw]
  · simp only [hw]
    cases s <;> simp [mapTargets, h₁]

/-- Control goes past a skip, to the next line, or to a target. -/
theorem cases_of_mem_successors {ip : Reg} {line next : Nat} (h : next ∈ s.successors ip line) :
    next = line + 1 ∨ next ∈ s.targets ∨ s.writesPointer ip = true ∧ next = line + 2 := by
  unfold successors at h
  by_cases hw : s.writesPointer ip
  · simp only [hw, if_true, List.mem_cons, List.not_mem_nil, or_false] at h
    rcases h with h | h
    · exact .inl h
    · exact .inr (.inr ⟨hw, h⟩)
  · simp only [hw] at h
    cases s <;> simp_all [targets]

end Stmt

/-! ## Liveness -/

namespace Code

/-- From the line there is a path to a statement that reads the register, or to an end at which it
is read, without a store into the register on the way. -/
inductive Live (ip : Reg) (outputs : List Reg) (code : Code) (i : Reg) : Nat → Prop
  | read {line : Nat} {s : Stmt} (hs : code[line]? = some s) (hr : s.reads i = true) :
    Live ip outputs code i line
  | pass {line next : Nat} {s : Stmt} (hs : code[line]? = some s) (hd : s.dest? ≠ some i)
    (hnext : next ∈ s.successors ip line) (h : Live ip outputs code i next) :
    Live ip outputs code i line
  | exit {line : Nat} (hs : code[line]? = none) (ho : i ∈ outputs) : Live ip outputs code i line
  | halt {line : Nat} (hs : code[line]? = some .halt) (ho : i ∈ outputs) :
    Live ip outputs code i line

/-- Whether every path from the lines of a list comes to a store into the register before it comes
to a read or leaves the list. -/
def closed (ip : Reg) (outputs : List Reg) (code : Code) (i : Reg) (lines : List Nat) : Bool :=
  lines.all fun line ↦
    match code[line]? with
    | none => !outputs.contains i
    | some s => !s.reads i && (s.dest? == some i || (s.successors ip line).all lines.contains) &&
        !(s matches .halt && outputs.contains i)

/-- Liveness is refuted by a list of lines that no read is among and no path leaves. -/
theorem not_live_of_closed {ip : Reg} {outputs : List Reg} {code : Code} {i : Reg}
    {lines : List Nat} (h : closed ip outputs code i lines = true) {line : Nat}
    (hline : line ∈ lines) : ¬Live ip outputs code i line := by
  intro hlive
  rw [closed, List.all_eq_true] at h
  induction hlive with
  | read hs hr =>
    have := h _ hline
    simp [hs, hr] at this
  | pass hs hd hnext _ ih =>
    have hc := h _ hline
    simp only [hs, Bool.and_eq_true, Bool.or_eq_true, beq_iff_eq, hd, false_or,
      List.all_eq_true, List.contains_iff_mem] at hc
    exact ih (hc.1.2 _ hnext)
  | exit hs ho =>
    have := h _ hline
    simp [hs, ho] at this
  | halt hs ho =>
    have := h _ hline
    simp [hs, ho] at this

end Code

end Unjump
