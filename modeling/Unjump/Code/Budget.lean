import Unjump.Code.Exec

/-!
# Larger budgets

A run that does not exhaust its budget is the same run under a larger one, with as many more
steps left. The fact is proved once for each way in which the definitions of `Unjump.Code.Exec`
put runs together, and the statements then follow their own shape.

The number of rounds a loop is given grows with the budget, so the comparison is between two
functions: `Extends k f g` says that `g`, with `k` more steps, does what `f` does.
-/

namespace Unjump

/-- The outcome with `k` more steps left. -/
def Outcome.extend {α : Type} (k : Nat) : Outcome α → Outcome α
  | .done a r left => .done a r (left + k)
  | .exhausted => .exhausted
  | .fault => .fault

/-- With `k` more steps `g` does what `f` does, where `f` had enough. -/
def Extends {α : Type} (k : Nat) (f g : Registers → Nat → Outcome α) : Prop :=
  ∀ r n, f r n ≠ .exhausted → g r (n + k) = (f r n).extend k

namespace Extends

variable {α β : Type} {k : Nat}

/-! ## How runs are put together -/

theorem of_done (a : α) (change : Registers → Registers) :
    Extends k (fun r n ↦ .done a (change r) n) (fun r n ↦ .done a (change r) n) :=
  fun _ _ _ ↦ rfl

theorem of_exhausted (g : Registers → Nat → Outcome α) : Extends k (fun _ _ ↦ .exhausted) g :=
  fun _ _ h ↦ absurd rfl h

theorem bind {f g : Registers → Nat → Outcome α} {f' g' : α → Registers → Nat → Outcome β}
    (h : Extends k f g) (h' : ∀ a, Extends k (f' a) (g' a)) :
    Extends k (fun r n ↦ (f r n).bind f') fun r n ↦ (g r n).bind g' := by
  intro r n hne
  have hf : f r n ≠ .exhausted := fun he ↦ hne (by simp [he, Outcome.bind])
  simp only [h r n hf]
  cases ho : f r n with
  | done a r' left =>
    simp only [ho, Outcome.bind] at hne
    exact h' a r' left hne
  | exhausted => rfl
  | fault => rfl

theorem andThen {f g f' g' : Registers → Nat → Outcome Flow} (h : Extends k f g)
    (h' : Extends k f' g') :
    Extends k (fun r n ↦ (f r n).andThen f') fun r n ↦ (g r n).andThen g' := by
  refine h.bind fun flow ↦ ?_
  cases flow with
  | next => exact h'
  | goto t => exact of_done _ id
  | halt => exact of_done _ id

/-! ## Loops -/

theorem afterRound {f g : Registers → Nat → Outcome Flow} (h : Extends k f g)
    (stop : Registers → Bool) :
    Extends k (Unjump.afterRound stop f) (Unjump.afterRound stop g) := by
  intro r n hne
  by_cases hs : stop r
  · simp [Unjump.afterRound, hs, Outcome.extend]
  · cases n with
    | zero => simp [Unjump.afterRound, hs] at hne
    | succ n =>
      rw [show n + 1 + k = (n + k) + 1 from by omega]
      simp only [Unjump.afterRound, hs] at hne ⊢
      exact h r n hne

/-- A loop may be given more rounds besides. -/
theorem repeatUntil {body : Registers → Nat → Outcome Flow} (h : Extends k body body)
    (stop : Registers → Bool) {m m' : Nat} (hm : m ≤ m') :
    Extends k (Unjump.repeatUntil body stop m) (Unjump.repeatUntil body stop m') := by
  induction m generalizing m' with
  | zero =>
    cases m' with
    | zero => exact h.andThen ((of_exhausted _).afterRound stop)
    | succ m' => exact h.andThen ((of_exhausted _).afterRound stop)
  | succ m ih =>
    cases m' with
    | zero => omega
    | succ m' => exact h.andThen ((ih (by omega)).afterRound stop)

end Extends

/-! ## Statements and code -/

mutual

theorem Stmt.extends_exec (ip : Reg) (k : Nat) (s : Stmt) :
    Extends k (s.exec ip) (s.exec ip) := by
  intro r n hne
  cases n with
  | zero => exact absurd (by rw [Stmt.exec]) hne
  | succ n =>
    rw [show n + 1 + k = (n + k) + 1 from by omega]
    cases s with
    | ifThen cond body =>
      simp only [Stmt.exec] at hne ⊢
      by_cases hc : cond.holds r
      · rw [if_pos hc] at hne
        rw [if_pos hc, if_pos hc]
        exact Code.extends_exec ip k body r n hne
      · rw [if_neg hc, if_neg hc]
        rfl
    | doUntil cond body =>
      simp only [Stmt.exec] at hne ⊢
      exact (Code.extends_exec ip k body).repeatUntil cond.holds (Nat.le_add_right n k) _ _ hne
    | forUntil var init cond body =>
      simp only [Stmt.exec] at hne ⊢
      exact ((Code.extends_exec ip k body).andThen (.of_done _ _)).repeatUntil cond.holds
        (Nat.le_add_right n k) _ _ hne
    | _ => rfl

theorem Code.extends_exec (ip : Reg) (k : Nat) (body : List Stmt) :
    Extends k (Code.exec ip body) (Code.exec ip body) := by
  cases body with
  | nil => exact .of_done _ id
  | cons s rest =>
    intro r n hne
    simp only [Code.exec] at hne ⊢
    by_cases hw : s.writesPointer ip
    · rw [if_pos hw, if_pos hw]
      rfl
    · rw [if_neg hw] at hne
      rw [if_neg hw, if_neg hw]
      exact (Stmt.extends_exec ip k s).andThen (Code.extends_exec ip k rest) r n hne

end

theorem Stmt.extends_execAt (ip : Reg) (k line : Nat) (s : Stmt) :
    Extends k (s.execAt ip line) (s.execAt ip line) := by
  intro r n hne
  unfold Stmt.execAt at hne ⊢
  by_cases hw : s.writesPointer ip
  · rw [if_pos hw] at hne
    rw [if_pos hw, if_pos hw]
    exact ((Stmt.extends_exec ip k s).bind fun _ ↦ fun _ _ _ ↦ rfl) _ n hne
  · rw [if_neg hw] at hne
    rw [if_neg hw, if_neg hw]
    refine ((Stmt.extends_exec ip k s).bind fun flow ↦ ?_) r n hne
    cases flow with
    | next => exact .of_done _ id
    | goto t => exact .of_done _ id
    | halt => exact .of_done _ id

/-- A run may be given more rounds besides. -/
theorem extends_runFrom (ip : Reg) (fetch : Nat → Option Stmt) (k line : Nat) {m m' : Nat}
    (hm : m ≤ m') : Extends k (runFrom ip fetch m line) (runFrom ip fetch m' line) := by
  induction m generalizing m' line with
  | zero =>
    intro r n hne
    rw [runFrom] at hne
    rw [runFrom, runFrom]
    cases hs : fetch line with
    | none => rfl
    | some s => simp [hs] at hne
  | succ m ih =>
    intro r n hne
    obtain ⟨m', rfl⟩ := Nat.exists_eq_add_of_le' (Nat.le_trans (Nat.le_add_left 1 m) hm)
    rw [runFrom] at hne
    rw [runFrom, runFrom]
    cases hs : fetch line with
    | none => rfl
    | some s =>
      simp only [hs] at hne ⊢
      refine ((Stmt.extends_execAt ip k line s).bind fun next? ↦ ?_) r n hne
      cases next? with
      | none => exact .of_done _ id
      | some next => exact ih next (by omega)

/-- **A larger budget keeps a run that did not exhaust the smaller one.** -/
theorem Code.extends_runWithin (ip : Reg) (code : Code) (r : Registers) (n k : Nat)
    (h : Code.runWithin ip code n r ≠ .exhausted) :
    Code.runWithin ip code (n + k) r = (Code.runWithin ip code n r).extend k := by
  rw [Code.runWithin_eq] at h ⊢
  rw [Code.runWithin_eq]
  exact extends_runFrom ip _ k 0 (Nat.le_add_right n k) r n h

end Unjump
