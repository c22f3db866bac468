import Unjump.Proofs.Assumptions
import Unjump.Proofs.SkipFolds

/-!
# The machine and fused code in step

The machine runs lifted code line by line; fused code has one branch for a comparison, a skip and a
jump, and nothing at all for a store that was dropped. The two are in step at the lines that control
can come to in both (`Program.Tracks`), and get from one such line to the next in any number of
steps.

## The invariant

The register files agree, but for the flags that branches do not store. Such a flag is not read
before it is written, except by the skip that went into the branch, and control does not come to the
line of that skip any more (`Program.Shadows`). Besides, from a store up to the dropped repetition
of it the register still holds what was stored (`Code.Holds`). No jump or skip lands in between, so
this is a matter of going from one line to the next.
-/

namespace Unjump

/-! ## Lifted statements and the pointer -/

namespace Stmt.Lifted

variable {ip x : Reg} {s : Stmt}

/-- Only skips read the pointer. -/
theorem reads_pointer (h : s.Lifted ip) (hw : s.writesPointer ip = false) : s.reads ip = false := by
  have hupdates : (Stores.shorten s).updates ip = false := by
    rw [← Stores.writesPointer_shorten] at hw
    generalize Stores.shorten s = s' at hw
    cases s' with
    | update op dest value => exact hw
    | _ => rfl
  have hexprs : (Stores.shorten s).exprs.any (Expr.reads ip) = false := by
    rw [List.any_eq_false]
    intro e he
    rw [h.reads_of_mem_exprs_shorten e he]
    exact Bool.false_ne_true
  rw [← Stores.reads_shorten, Stmt.reads, hupdates, hexprs]
  rfl

theorem ne_of_isSkip (h : s.Lifted ip) (hs : s.IsSkip ip x) : x ≠ ip := by
  obtain ⟨y, hy, hs'⟩ := h.isSkip_of_writesPointer hs.writesPointer
  have heq := Stores.shorten_of_isSkip hs
  rw [Stores.shorten_of_isSkip hs'] at heq
  cases heq
  exact hy

end Stmt.Lifted

/-- A repeated store has nothing to do with the pointer. -/
theorem Stores.Repeats.off_pointer {ip : Reg} {code : Code} {k d : Nat} {i : Reg} {e : Expr}
    (h : Repeats code k d i e) (hlifted : ∀ s ∈ code, s.Lifted ip) :
    i ≠ ip ∧ e.reads ip = false := by
  have hl := hlifted _ (List.mem_of_getElem? h.store)
  have hw : (Stmt.assign i e).writesPointer ip = false := by
    cases hw : (Stmt.assign i e).writesPointer ip with
    | false => rfl
    | true =>
      -- a skip stores a sum, and sums are not repeated
      obtain ⟨x, -, hskip⟩ := hl.isSkip_of_writesPointer hw
      have hbin := h.plain.1
      rcases hskip with heq | heq <;> cases heq <;> cases hbin
  have hreads := hl.reads_pointer hw
  exact ⟨by simpa [Stmt.writesPointer] using hw,
    by simpa [Stmt.reads, Stmt.updates, Stmt.exprs] using hreads⟩

theorem Stmt.IsSkip.reads {ip x : Reg} {s : Stmt} (h : s.IsSkip ip x) : s.reads x = true := by
  rcases h with rfl | rfl <;> simp [Stmt.reads, Stmt.exprs, Expr.reads]

theorem Stmt.IsSkip.dest? {ip x : Reg} {s : Stmt} (h : s.IsSkip ip x) : s.dest? = some ip := by
  rcases h with rfl | rfl <;> rfl

/-- A guard stores the flag it compares. -/
theorem Skips.eval_guard {x : Reg} {r : Registers} (h : r.get x = 0 ∨ r.get x = 1) :
    (Cond.mk .eq (.reg x) (.lit 1)).eval r = r.get x := by
  rw [Cond.eval, Cond.toExpr, Expr.eval, Expr.eval, Expr.eval]
  rcases h with h | h <;> rw [h] <;> rfl

theorem Skips.holds_guard_iff {x : Reg} {r : Registers} :
    (Cond.mk .eq (.reg x) (.lit 1)).holds r = true ↔ r.get x = 1 := by
  have heval : (Cond.mk .eq (.reg x) (.lit 1)).eval r = Opcode.flag (r.get x == 1) := rfl
  rw [Cond.holds, heval]
  by_cases h : r.get x = 1 <;> simp [h, Opcode.flag]

/-! ## Stores that are still there -/

namespace Code

/-- At line `n`, what was stored and is stored again at or behind `n` is still there. -/
def Holds (code : Code) (n : Nat) (q r : Registers) : Prop :=
  ∀ k d i e, Stores.Repeats code k d i e → k < n → n ≤ d → q.get i = e.eval q ∧ q.get i = r.get i

variable {ip : Reg} {code : Code} {n : Nat} {s : Stmt} {q r q' r' : Registers}

/-- Nothing has to be there where control comes in. -/
theorem Orderly.holds (ho : Orderly ip code) (hn : Entered ip code n) : Holds code n q r :=
  fun k d i e h hlt hle ↦ absurd ⟨hlt, hle⟩ (ho.undisturbed k d i e h n hn)

theorem entered_of_goto (ip : Reg) {t : Nat} (hs : code[n]? = some (.goto t)) : Entered ip code t :=
  .inl (mem_targets_iff.mpr ⟨n, _, hs, List.mem_singleton_self t⟩)

/-- What changes at most the pointer keeps what is there, and is not a repeated store itself. -/
theorem Holds.succ_of_agreeOff (h : Holds code n q r) (hlifted : ∀ s ∈ code, s.Lifted ip)
    (hn : ∀ d i e, ¬Stores.Repeats code n d i e) (hq : q'.AgreeOff ip q) (hr : r'.AgreeOff ip r) :
    Holds code (n + 1) q' r' := by
  intro k d i e hrep hlt hle
  obtain ⟨hi, he⟩ := hrep.off_pointer hlifted
  have hkn : k < n := by
    rcases Nat.lt_succ_iff_lt_or_eq.mp hlt with hkn | rfl
    · exact hkn
    · exact absurd hrep (hn d i e)
  obtain ⟨hval, hsame⟩ := h k d i e hrep hkn (Nat.le_of_succ_le hle)
  rw [hq i hi, hr i hi, hq.eval_eq he]
  exact ⟨hval, hsame⟩

/-- What changes at most the pointer leaves alone what is there. -/
theorem Holds.of_agreeOff (h : Holds code n q r) (hlifted : ∀ s ∈ code, s.Lifted ip)
    (hq : q'.AgreeOff ip q) : Holds code n q' r := by
  intro k d i e hrep hlt hle
  obtain ⟨hi, he⟩ := hrep.off_pointer hlifted
  obtain ⟨hval, hsame⟩ := h k d i e hrep hlt hle
  rw [hq i hi, hq.eval_eq he]
  exact ⟨hval, hsame⟩

/-- A line that is kept stores, or leaves alone what was stored before. -/
theorem Holds.succ_of_kept (h : Holds code n q r) (hs : code[n]? = some s)
    (hn : n ∉ Stores.deleted code) (hassign : ∀ i e, s = .assign i e → q'.get i = e.eval q)
    (hchange : Registers.SameChange s.dest? q r q' r') : Holds code (n + 1) q' r' := by
  intro k d i e hrep hlt hle
  -- what is stored into is not what the value depends on
  have heval {j : Reg} {v : Expr} (hsv : s = .assign j v) (hj : e.reads j = false) :
      e.eval q' = e.eval q := by
    refine e.eval_congr fun x hx ↦ (hchange.frame x ?_).1
    rw [hsv]
    rintro hjx
    cases hjx
    rw [hj] at hx
    cases hx
  rcases Nat.lt_succ_iff_lt_or_eq.mp hlt with hkn | rfl
  · obtain ⟨hval, hsame⟩ := h k d i e hrep hkn (Nat.le_of_succ_le hle)
    rcases hrep.plain.2.2 n hkn hle with hmem | ⟨j, v, hj, hji, hread⟩
    · exact absurd hmem hn
    · rw [hs, Option.some.injEq] at hj
      obtain ⟨hq, hr⟩ := hchange.frame i fun hd ↦ hji (by rw [hj] at hd; exact Option.some.inj hd)
      rw [hq, hr, heval hj hread]
      exact ⟨hval, hsame⟩
  · have hstore := hrep.store
    rw [hs, Option.some.injEq] at hstore
    rw [heval hstore hrep.reads_eq_false]
    exact ⟨hassign i e hstore, hchange.same i (by rw [hstore]; rfl)⟩

end Code

/-! ## Steps of single statements -/

namespace Stmt

variable {ip : Reg} {line : Nat} (r : Registers)

theorem takes_assign {i : Reg} (hi : i ≠ ip) (e : Expr) :
    Takes ((assign i e).execAt ip line) r 1 (some (line + 1)) (r.set i (e.eval r)) :=
  (takes_execAt_iff (by simpa [writesPointer] using hi)).mpr
    ⟨.next, rfl, takes_of_tick fun left ↦ by rw [exec]⟩

theorem takes_compare (cond : Cond) (x : Reg) :
    Takes ((compare cond x).execAt ip line) r 1 (some (line + 1)) (r.set x (cond.eval r)) :=
  (takes_execAt_iff rfl).mpr ⟨.next, rfl, takes_of_tick fun left ↦ by rw [exec]⟩

theorem takes_goto (t : Nat) : Takes ((goto t).execAt ip line) r 1 (some t) r :=
  (takes_execAt_iff rfl).mpr ⟨.goto t, rfl, takes_of_tick fun left ↦ by rw [exec]⟩

theorem takes_branch (cond : Cond) (ifTrue ifFalse : Nat) :
    Takes ((branch cond ifTrue ifFalse).execAt ip line) r 1
      (some (if cond.holds r then ifTrue else ifFalse)) r :=
  (takes_execAt_iff rfl).mpr ⟨.goto _, rfl, takes_of_tick fun left ↦ by rw [exec]⟩

end Stmt

/-! ## Runs of the machine that halt -/

namespace Program

/-- The machine is at line `n`, and from there its run meets the assumptions and halts within the
budget. -/
structure Follows (p : Program) (budget n : Nat) (q last : Registers) : Prop where
  line : (q.get p.ip).line? = some n
  assumptions : p.Assumptions budget q
  halts : ∃ left, p.runWithin budget q = some (last, left)

/-- What is known of a step of such a run, which the statement `s` of lifted code takes too: the
machine follows the code, what is unread stays unread, and the flags are as assumed. -/
structure Moves (p : Program) (code : Code) (s : Stmt) (budget n : Nat) (q last : Registers)
    (next? : Option Nat) (q' : Registers) : Prop where
  takes : ∃ q₁, Takes (s.execAt p.ip n) q 1 next? q₁ ∧ q'.AgreeOff p.ip q₁
  follows : ∀ next, next? = some next → p.Follows budget next q' last
  stops : next? = none → p.pc? q' = none ∧ q' = last
  unread : ∀ i line, i ≠ p.ip → p.unread i line (budget + 1) q = true →
    (n ≠ line → s.reads i = false) ∧ (s.dest? ≠ some i → p.unread i line budget q' = true)
  flag : ∀ x, s.IsSkip p.ip x → q.get x = 0 ∨ q.get x = 1
  flagUnread : ∀ cond x s', s = .compare cond x → code[n + 1]? = some s' → s'.IsSkip p.ip x →
    p.unread x (n + 1) budget q' = true

variable {p : Program} {code : Code} {budget n : Nat} {q q' r r' last : Registers} {s : Stmt}

theorem Follows.eq_last (h : p.Follows budget n q last) (hpc : p.pc? q = none) : last = q := by
  obtain ⟨left, hrun⟩ := h.halts
  rw [runWithin_of_none (step?_of_pc?_eq_none hpc)] at hrun
  cases hrun
  rfl

/-- **Where there is a statement, the machine takes a step with it.** -/
theorem Follows.exists_moves (h : p.Follows budget n q last) (hsize : p.size < 2 ^ 62)
    (hlift : p.lift = .ok code) (hs : code[n]? = some s) :
    ∃ budget' next? q', budget = budget' + 1 ∧ p.Moves code s budget' n q last next? q' := by
  obtain ⟨m, i, rfl, hpc, hi, hlifted, next?, q₁, ht, hagree, hnext, hnone⟩ :=
    exists_step (Nat.lt_trans hsize (by decide)) hlift h.line hs
  have hstep : p.step? q = some (p.execAt m q) := by rw [step?, hpc, Option.map_some]
  have hl := (Instruction.lifted_of_lift hlifted).1
  obtain ⟨left, hrun⟩ := h.halts
  cases budget with
  | zero =>
    rw [runWithin_zero_of_some hstep] at hrun
    cases hrun
  | succ budget =>
    rw [runWithin_of_some hstep] at hrun
    refine ⟨budget, next?, p.execAt m q, rfl, ⟨q₁, ht, hagree⟩, fun next hsome ↦ ?_, fun hn ↦ ?_,
      fun x line hx hu ↦ ?_, fun x hskip ↦ ?_, fun cond x s' hcompare hs' hskip ↦ ?_⟩
    · exact ⟨hnext next hsome, h.assumptions.of_step? hstep, left, hrun⟩
    · have hend := hnone hn (h.assumptions.products 0 (Nat.succ_pos _) q rfl)
      rw [runWithin_of_none (step?_of_pc?_eq_none hend)] at hrun
      cases hrun
      exact ⟨hend, rfl⟩
    · obtain ⟨hread, hwrite⟩ := unread_step hu hpc hi
      constructor
      · intro hne
        cases hr : s.reads x with
        | false => rfl
        | true =>
          have hr' := Instruction.reads_of_lift hlifted hr
          rw [hread hne] at hr'
          cases hr'
      · intro hd
        refine hwrite ?_
        cases hw : i.writes x with
        | false => rfl
        | true => exact absurd (Instruction.dest?_of_lift hlifted hx hw) hd
    · exact h.assumptions.skips 0 (Nat.succ_pos _) q rfl m hpc i hi x
        (Instruction.skip?_of_lift hlifted (hl.ne_of_isSkip hskip) hskip)
    · rw [hcompare] at hlifted
      obtain ⟨i', hi', hlifted'⟩ := lift_of_getElem? hlift hs'
      have hne := (lifted_of_mem hlift (List.mem_of_getElem? hs')).ne_of_isSkip hskip
      exact h.assumptions.flags 0 (Nat.succ_pos _) q rfl m hpc i hi x
        (Instruction.flag?_of_lift hlifted) i' hi'
        (Instruction.skip?_of_lift hlifted' hne hskip)

/-- The machine goes where the statement goes. -/
theorem Follows.exists_moves_of_takes (h : p.Follows budget n q last) (hsize : p.size < 2 ^ 62)
    (hlift : p.lift = .ok code) (hs : code[n]? = some s) {next? : Option Nat} {q₁ : Registers}
    (ht : Takes (s.execAt p.ip n) q 1 next? q₁) :
    ∃ budget' q', budget = budget' + 1 ∧ q'.AgreeOff p.ip q₁ ∧
      p.Moves code s budget' n q last next? q' := by
  obtain ⟨budget', next?', q', rfl, hm⟩ := h.exists_moves hsize hlift hs
  obtain ⟨q₁', ht', hagree⟩ := hm.takes
  obtain ⟨-, rfl, rfl⟩ := ht.unique ht'
  exact ⟨budget', q', rfl, hagree, hm⟩

/-- A skip by 0 or 1 changes the pointer only. -/
theorem Follows.exists_moves_skip (h : p.Follows budget n q last) (hsize : p.size < 2 ^ 62)
    (hlift : p.lift = .ok code) (hs : code[n]? = some s) {x : Reg} (hskip : s.IsSkip p.ip x) :
    ∃ budget' q', budget = budget' + 1 ∧ q'.AgreeOff p.ip q ∧
      p.Moves code s budget' n q last (some (if q.get x = 1 then n + 2 else n + 1)) q' := by
  have hx := (lifted_of_mem hlift (List.mem_of_getElem? hs)).ne_of_isSkip hskip
  have hlt : n + 2 < 2 ^ 63 := by
    have hlen := (List.getElem?_eq_some_iff.mp hs).1
    rw [length_of_lift hlift] at hlen
    omega
  have hflag : q.get x = 0 ∨ q.get x = 1 := by
    obtain ⟨_, _, _, -, hm⟩ := h.exists_moves hsize hlift hs
    exact hm.flag x hskip
  have ht := Code.takes_skip_of_flag hx hlt hflag
  rw [← Stores.shorten_of_isSkip hskip, Stores.execAt_shorten] at ht
  obtain ⟨budget', q', rfl, hagree, hm⟩ := h.exists_moves_of_takes hsize hlift hs ht
  refine ⟨budget', q', rfl, fun i hi ↦ ?_, hm⟩
  rw [hagree i hi, Registers.get_set_of_ne q hi.symm]

/-! ## Registers that are read no more -/

/-- Off the pointer, the register files are the same except in registers that are not read before
they are written, unless at a line that control does not come to. -/
def Shadows (p : Program) (E : Nat → Prop) (budget : Nat) (q r : Registers) : Prop :=
  ∀ i, i ≠ p.ip → q.get i = r.get i ∨ ∃ line, ¬E line ∧ p.unread i line budget q = true

namespace Shadows

variable {E : Nat → Prop} {next? : Option Nat}

/-- What is read is the same. -/
theorem get_eq (h : p.Shadows E (budget + 1) q r) (hm : p.Moves code s budget n q last next? q')
    (hn : E n) {i : Reg} (hi : i ≠ p.ip) (hread : s.reads i = true) : q.get i = r.get i := by
  rcases h i hi with heq | ⟨line, hline, hu⟩
  · exact heq
  · have hne : n ≠ line := fun heq ↦ hline (heq ▸ hn)
    rw [(hm.unread i line hi hu).1 hne] at hread
    cases hread

/-- At the end register 0 is the same. -/
theorem get_zero_eq (h : p.Shadows E budget q r) (hip : p.ip ≠ 0) (hpc : p.pc? q = none) :
    q.get 0 = r.get 0 := by
  rcases h 0 hip.symm with heq | ⟨line, -, hu⟩
  · exact heq
  · exact absurd rfl (ne_zero_of_unread hu hpc)

/-- A step keeps what it does not store into, and what it stores into is the same if it was stored
into on both sides. -/
theorem moves (h : p.Shadows E (budget + 1) q r) (hm : p.Moves code s budget n q last next? q')
    (hsame : ∀ i, i ≠ p.ip → s.dest? = some i → q'.get i = r'.get i)
    (hframe : ∀ i, i ≠ p.ip → s.dest? ≠ some i → q'.get i = q.get i ∧ r'.get i = r.get i) :
    p.Shadows E budget q' r' := by
  intro i hi
  by_cases hd : s.dest? = some i
  · exact .inl (hsame i hi hd)
  · obtain ⟨hq, hr⟩ := hframe i hi hd
    rw [hq, hr]
    rcases h i hi with heq | ⟨line, hline, hu⟩
    · exact .inl heq
    · exact .inr ⟨line, hline, (hm.unread i line hi hu).2 hd⟩

/-- What stores into no register but the pointer keeps all of it. -/
theorem moves_of_agreeOff (h : p.Shadows E (budget + 1) q r)
    (hm : p.Moves code s budget n q last next? q') (hd : ∀ i, s.dest? = some i → i = p.ip)
    (hq : q'.AgreeOff p.ip q) (hr : r'.AgreeOff p.ip r) : p.Shadows E budget q' r' :=
  h.moves hm (fun i hi hsome ↦ absurd (hd i hsome) hi) fun i hi _ ↦ ⟨hq i hi, hr i hi⟩

end Shadows

/-! ## The two in step -/

/-- The machine at line `n` and fused code where `n` has gone. -/
structure Tracks (p : Program) (code : Code) (E : Nat → Prop) (budget n : Nat)
    (q r last : Registers) : Prop where
  follows : p.Follows budget n q last
  entered : E n
  shadows : p.Shadows E budget q r
  holds : code.Holds n q r

/-- Fused code in which all lines of a program's lifted code are covered. -/
structure FusedAs (p : Program) (code fused : Code) (ρ : Nat → Nat) (E : Nat → Prop) : Prop where
  size : p.size < 2 ^ 62
  lift : p.lift = .ok code
  orderly : code.Orderly p.ip
  covers : ∀ n, E n → Code.Covers p.ip code fused ρ E n
  targets : ∀ t ∈ Code.targets code, E t
  room : ∀ line s, fused[line]? = some s → line + 2 < 2 ^ 63

/-- Fused code ends from `line` and `r` as the machine does, or it goes on to where the two are in
step again and the machine has less of its budget. -/
def Proceeds (p : Program) (code fused : Code) (ρ : Nat → Nat) (E : Nat → Prop) (budget line : Nat)
    (r last : Registers) : Prop :=
  (∃ r', Code.EndsByFlags p.ip fused line r r' ∧ last.get 0 = r'.get 0) ∨
  ∃ budget' < budget, ∃ n' q' r', p.Tracks code E budget' n' q' r' last ∧
    ∀ r'', Code.EndsByFlags p.ip fused (ρ n') r' r'' → Code.EndsByFlags p.ip fused line r r''

section

variable {fused : Code} {ρ : Nat → Nat} {E : Nat → Prop} {x : Reg} {t : Nat}

theorem FusedAs.lifted (hf : p.FusedAs code fused ρ E) : ∀ s ∈ code, s.Lifted p.ip :=
  fun _ hs ↦ lifted_of_mem hf.lift hs

theorem FusedAs.ne_of_isSkip (hf : p.FusedAs code fused ρ E) (hs : code[n]? = some s)
    (hskip : s.IsSkip p.ip x) : x ≠ p.ip :=
  (hf.lifted s (List.mem_of_getElem? hs)).ne_of_isSkip hskip

/-- Past the end both runs are over. -/
theorem Tracks.proceeds_off (h : p.Tracks code E budget n q r last) (hf : p.FusedAs code fused ρ E)
    (hip : p.ip ≠ 0) (hs : code[n]? = none) (hget : fused[ρ n]? = none) :
    p.Proceeds code fused ρ E budget (ρ n) r last := by
  have hpc : p.pc? q = none := by
    refine pc?_eq_none fun m hm ↦ ?_
    rw [h.follows.line] at hm
    cases hm
    rw [← length_of_lift hf.lift]
    exact List.getElem?_eq_none_iff.mp hs
  refine .inl ⟨r, .off hget, ?_⟩
  rw [h.follows.eq_last hpc]
  exact h.shadows.get_zero_eq hip hpc

/-- A store that was dropped changes nothing. -/
theorem Tracks.proceeds_dropped (h : p.Tracks code E budget n q r last)
    (hf : p.FusedAs code fused ρ E) (hn : n ∈ Stores.deleted code) (hE : E (n + 1))
    (hρ : ρ (n + 1) = ρ n) : p.Proceeds code fused ρ E budget (ρ n) r last := by
  obtain ⟨i, e, hs, hwhy⟩ := Stores.exists_repeats hn
  have hi : i ≠ p.ip := by
    rcases hwhy with rfl | ⟨k, hrep⟩
    · rintro rfl
      obtain ⟨x, -, hskip⟩ := (hf.lifted _ (List.mem_of_getElem? hs)).isSkip_of_writesPointer
        (by simp [Stmt.writesPointer])
      rcases hskip with heq | heq <;> cases heq
    · exact (hrep.off_pointer hf.lifted).1
  obtain ⟨budget', q', rfl, hagree, hm⟩ :=
    h.follows.exists_moves_of_takes hf.size hf.lift hs (Stmt.takes_assign q hi e)
  -- the register holds the value already, on both sides
  obtain ⟨hval, hsame⟩ : q.get i = e.eval q ∧ q.get i = r.get i := by
    rcases hwhy with rfl | ⟨k, hrep⟩
    · exact ⟨rfl, h.shadows.get_eq hm h.entered hi
        (by simp [Stmt.reads, Stmt.updates, Stmt.exprs, Expr.reads])⟩
    · exact h.holds k n i e hrep hrep.lt (Nat.le_refl n)
  rw [← hval, Registers.set_get_self] at hagree
  refine .inr ⟨budget', Nat.lt_succ_self _, n + 1, q', r, ⟨hm.follows _ rfl, hE, ?_, ?_⟩, ?_⟩
  · refine h.shadows.moves hm (fun j hj hd ↦ ?_) fun j hj _ ↦ ⟨hagree j hj, rfl⟩
    cases hd
    rw [hagree i hi, hsame]
  · exact h.holds.succ_of_agreeOff hf.lifted (fun d j v hrep ↦ hrep.kept hn) hagree (.refl _ r)
  · rw [hρ]
    exact fun r'' he ↦ he

/-- A statement that was kept does the same on both sides. -/
theorem Tracks.proceeds_kept (h : p.Tracks code E budget n q r last) (hf : p.FusedAs code fused ρ E)
    (hip : p.ip ≠ 0) (hs : code[n]? = some s) (hw : s.writesPointer p.ip = false)
    (hn : n ∉ Stores.deleted code) (hget : fused[ρ n]? = some ((Stores.shorten s).mapTargets ρ))
    (hE : E (n + 1)) (hρ : ρ (n + 1) = ρ n + 1) :
    p.Proceeds code fused ρ E budget (ρ n) r last := by
  have hl := hf.lifted s (List.mem_of_getElem? hs)
  obtain ⟨budget', next?, q', rfl, hm⟩ := h.follows.exists_moves hf.size hf.lift hs
  have hreads (i : Reg) (hi : s.reads i = true) : q.get i = r.get i := by
    refine h.shadows.get_eq hm h.entered ?_ hi
    rintro rfl
    rw [hl.reads_pointer hw] at hi
    cases hi
  obtain ⟨flow, q₁, r', htq, htr, hchange, -⟩ := Stmt.takes_of_agree p.ip hl.isStructured hreads
  obtain ⟨q₁', ht, hagree⟩ := hm.takes
  obtain ⟨-, rfl, rfl⟩ := ht.unique ((takes_execAt_iff hw).mpr ⟨flow, rfl, htq⟩)
  have hw' : (Stores.shorten s).writesPointer p.ip = false := by
    rw [Stores.writesPointer_shorten, hw]
  have ht' : Takes (((Stores.shorten s).mapTargets ρ).execAt p.ip (ρ n)) r 1
      ((flow.next? (n + 1)).map ρ) r' := by
    refine (takes_execAt_mapTargets_iff hw' hρ).mpr ⟨_, rfl, ?_⟩
    rw [Stores.execAt_shorten]
    exact (takes_execAt_iff hw).mpr ⟨flow, rfl, htr⟩
  rw [← Stmt.writesPointer_mapTargets ρ] at hw'
  have hshadows : p.Shadows E budget' q' r' := by
    refine h.shadows.moves hm (fun i hi hd ↦ ?_) fun i hi hd ↦ ?_
    · rw [hagree i hi, hchange.same i hd]
    · rw [hagree i hi]
      exact hchange.frame i hd
  cases flow with
  | next =>
    refine .inr ⟨budget', Nat.lt_succ_self _, n + 1, q', r', ⟨hm.follows _ rfl, hE, hshadows, ?_⟩,
      fun r'' he ↦ .step hget hw' ht' he⟩
    refine (h.holds.succ_of_kept hs hn (fun i e hassign ↦ ?_) hchange).of_agreeOff hf.lifted hagree
    rw [hassign] at htq
    have hstore : Takes ((Stmt.assign i e).exec p.ip) q 1 .next (q.set i (e.eval q)) :=
      Stmt.takes_of_tick fun left ↦ by rw [Stmt.exec]
    rw [(htq.unique hstore).2.2, Registers.get_set_self]
  | goto t =>
    have ht : t ∈ Code.targets code :=
      Code.mem_targets_iff.mpr ⟨n, s, hs, Stmt.mem_targets_of_takes s htq⟩
    exact .inr ⟨budget', Nat.lt_succ_self _, t, q', r',
      ⟨hm.follows _ rfl, hf.targets t ht, hshadows, hf.orderly.holds (.inl ht)⟩,
      fun r'' he ↦ .step hget hw' ht' he⟩
  | halt =>
    obtain ⟨hpc, rfl⟩ := hm.stops rfl
    exact .inl ⟨r', .stop hget hw' ht', hshadows.get_zero_eq hip hpc⟩

/-- The machine makes a skip by a flag that the other side has too. -/
theorem Tracks.exists_skip (h : p.Tracks code E budget n q r last) (hf : p.FusedAs code fused ρ E)
    (hs : code[n]? = some s) (hskip : s.IsSkip p.ip x) (hE₁ : E (n + 1)) (hE₂ : E (n + 2)) :
    (r.get x = 0 ∨ r.get x = 1) ∧ ∀ w, ∃ budget' < budget, ∃ q',
      p.Tracks code E budget' (if r.get x = 1 then n + 2 else n + 1) q' (r.set p.ip w) last := by
  obtain ⟨budget', q', rfl, hagree, hm⟩ := h.follows.exists_moves_skip hf.size hf.lift hs hskip
  have hx := hf.ne_of_isSkip hs hskip
  have hflag := hm.flag x hskip
  rw [h.shadows.get_eq hm h.entered hx hskip.reads] at hm hflag
  refine ⟨hflag, fun w ↦ ⟨budget', Nat.lt_succ_self _, q', hm.follows _ rfl, ?_, ?_, ?_⟩⟩
  · split
    · exact hE₂
    · exact hE₁
  · refine h.shadows.moves_of_agreeOff hm (fun i hd ↦ ?_) hagree
      ((Registers.AgreeOff.refl p.ip r).set_left w)
    rw [hskip.dest?] at hd
    exact (Option.some.inj hd).symm
  · split
    · exact hf.orderly.holds (.inr ⟨n, s, hs, hskip.writesPointer, rfl⟩)
    · refine h.holds.succ_of_agreeOff hf.lifted (fun d i e hrep ↦ ?_) hagree
        ((Registers.AgreeOff.refl p.ip r).set_left w)
      have hd := hskip.dest?
      rw [Option.some.inj (hs.symm.trans hrep.store)] at hd
      exact (hrep.off_pointer hf.lifted).1 (Option.some.inj hd)

theorem Tracks.proceeds_skip (h : p.Tracks code E budget n q r last) (hf : p.FusedAs code fused ρ E)
    (hs : code[n]? = some s) (hskip : s.IsSkip p.ip x)
    (hget : fused[ρ n]? = some (.update .add p.ip (.reg x))) (hE₁ : E (n + 1))
    (hρ₁ : ρ (n + 1) = ρ n + 1) (hE₂ : E (n + 2)) (hρ₂ : ρ (n + 2) = ρ n + 2) :
    p.Proceeds code fused ρ E budget (ρ n) r last := by
  have hx := hf.ne_of_isSkip hs hskip
  obtain ⟨hflag, hnext⟩ := h.exists_skip hf hs hskip hE₁ hE₂
  obtain ⟨budget', hlt, q', h'⟩ := hnext (Int64.ofNat (ρ n) + r.get x)
  refine .inr ⟨budget', hlt, _, q', _, h', fun r'' he ↦ .skip hget hx (hf.room _ _ hget) hflag ?_⟩
  rwa [apply_ite ρ, hρ₁, hρ₂] at he

/-- A guard that was put in leaves the flag as it is. -/
theorem Tracks.proceeds_guarded (h : p.Tracks code E budget n q r last)
    (hf : p.FusedAs code fused ρ E) (hs : code[n]? = some s) (hskip : s.IsSkip p.ip x)
    (hget₀ : fused[ρ n]? = some (Skips.guardOf x))
    (hget₁ : fused[ρ n + 1]? = some (.update .add p.ip (.reg x))) (hE₁ : E (n + 1))
    (hρ₁ : ρ (n + 1) = ρ n + 2) (hE₂ : E (n + 2)) (hρ₂ : ρ (n + 2) = ρ n + 3) :
    p.Proceeds code fused ρ E budget (ρ n) r last := by
  have hx := hf.ne_of_isSkip hs hskip
  obtain ⟨hflag, hnext⟩ := h.exists_skip hf hs hskip hE₁ hE₂
  obtain ⟨budget', hlt, q', h'⟩ := hnext (Int64.ofNat (ρ n + 1) + r.get x)
  have hguard : Takes ((Skips.guardOf x).execAt p.ip (ρ n)) r 1 (some (ρ n + 1)) r := by
    have ht := @Stmt.takes_compare p.ip (ρ n) r ⟨.eq, .reg x, .lit 1⟩ x
    rwa [Skips.eval_guard hflag, Registers.set_get_self] at ht
  refine .inr ⟨budget', hlt, _, q', _, h', fun r'' he ↦ .step hget₀ rfl hguard
    (.skip hget₁ hx (hf.room _ _ hget₁) hflag ?_)⟩
  rwa [apply_ite ρ, hρ₁, hρ₂] at he

/-- From a skip in front of a jump the machine comes to where control comes in. -/
theorem FusedAs.exists_skip_jump (hf : p.FusedAs code fused ρ E) (h : p.Follows budget n q last)
    (hs : code[n]? = some s) (hskip : s.IsSkip p.ip x) (hjump : code[n + 1]? = some (.goto t))
    (hE : E (n + 2)) (hshadows : p.Shadows E budget q r) :
    ∃ budget' < budget, ∃ q',
      p.Tracks code E budget' (if q.get x = 1 then n + 2 else t) q' r last := by
  obtain ⟨budget₁, q₁, rfl, hagree₁, hm₁⟩ := h.exists_moves_skip hf.size hf.lift hs hskip
  have hshadows₁ : p.Shadows E budget₁ q₁ r := by
    refine hshadows.moves_of_agreeOff hm₁ (fun i hd ↦ ?_) hagree₁ (.refl p.ip r)
    rw [hskip.dest?] at hd
    exact (Option.some.inj hd).symm
  have hfollows₁ := hm₁.follows _ rfl
  by_cases hflag : q.get x = 1
  · rw [if_pos hflag] at hfollows₁ ⊢
    exact ⟨budget₁, Nat.lt_succ_self _, q₁, hfollows₁, hE, hshadows₁,
      hf.orderly.holds (.inr ⟨n, s, hs, hskip.writesPointer, rfl⟩)⟩
  · rw [if_neg hflag] at hfollows₁ ⊢
    obtain ⟨budget₂, q₂, rfl, hagree₂, hm₂⟩ :=
      hfollows₁.exists_moves_of_takes hf.size hf.lift hjump (Stmt.takes_goto q₁ t)
    have hentered := Code.entered_of_goto p.ip hjump
    exact ⟨budget₂, by omega, q₂, hm₂.follows _ rfl,
      hf.targets t (Code.mem_targets_iff.mpr ⟨n + 1, _, hjump, List.mem_singleton_self t⟩),
      hshadows₁.moves_of_agreeOff hm₂ nofun hagree₂ (.refl p.ip r), hf.orderly.holds hentered⟩

theorem Tracks.proceeds_guardFused (h : p.Tracks code E budget n q r last)
    (hf : p.FusedAs code fused ρ E) (hs : code[n]? = some s) (hskip : s.IsSkip p.ip x)
    (hjump : code[n + 1]? = some (.goto t))
    (hget : fused[ρ n]? = some (.branch ⟨.eq, .reg x, .lit 1⟩ (ρ n + 1) (ρ t)))
    (hE : E (n + 2)) (hρ : ρ (n + 2) = ρ n + 1) :
    p.Proceeds code fused ρ E budget (ρ n) r last := by
  have hx := hf.ne_of_isSkip hs hskip
  have hflag : q.get x = r.get x := by
    obtain ⟨budget', q', rfl, -, hm⟩ := h.follows.exists_moves_skip hf.size hf.lift hs hskip
    exact h.shadows.get_eq hm h.entered hx hskip.reads
  obtain ⟨budget', hlt, q', h'⟩ := hf.exists_skip_jump h.follows hs hskip hjump hE h.shadows
  refine .inr ⟨budget', hlt, _, q', r, h',
    fun r'' he ↦ .step hget rfl (Stmt.takes_branch r _ _ _) ?_⟩
  rw [apply_ite ρ, hρ, hflag] at he
  simpa only [Skips.holds_guard_iff] using he

theorem Tracks.proceeds_fused (h : p.Tracks code E budget n q r last)
    (hf : p.FusedAs code fused ρ E) {cond : Cond} (hcompare : code[n]? = some (.compare cond x))
    (hs : code[n + 1]? = some s) (hskip : s.IsSkip p.ip x) (hjump : code[n + 2]? = some (.goto t))
    (hget : fused[ρ n]? = some (.branch cond (ρ n + 1) (ρ t))) (hE : E (n + 3))
    (hρ : ρ (n + 3) = ρ n + 1) (hinside : ¬E (n + 1)) :
    p.Proceeds code fused ρ E budget (ρ n) r last := by
  have hl := hf.lifted _ (List.mem_of_getElem? hcompare)
  have hx := hf.ne_of_isSkip hs hskip
  obtain ⟨budget₁, q₁, rfl, hagree, hm⟩ :=
    h.follows.exists_moves_of_takes hf.size hf.lift hcompare (Stmt.takes_compare q cond x)
  -- the condition is the same on both sides, and the flag says whether it holds
  have hcond : cond.eval q = cond.eval r := by
    refine Expr.eval_congr _ fun i hi ↦ ?_
    have hreads : (Stmt.compare cond x).reads i = true := by
      simpa [Stmt.reads, Stmt.updates, Stmt.exprs] using hi
    refine h.shadows.get_eq hm h.entered ?_ hreads
    rintro rfl
    rw [hl.reads_pointer rfl] at hreads
    cases hreads
  have hflag : q₁.get x = 1 ↔ cond.holds r = true := by
    rw [hagree x hx, Registers.get_set_self, hcond, Cond.eval_of_compares (hl.op_of_compare rfl)]
    cases cond.holds r <;> decide
  -- the branch stores no flag, and nothing but the skip would have read it
  have hshadows : p.Shadows E budget₁ q₁ r := by
    intro i hi
    by_cases hix : x = i
    · rw [← hix]
      exact .inr ⟨n + 1, hinside, hm.flagUnread cond x s rfl hs hskip⟩
    · rw [hagree i hi, Registers.get_set_of_ne q hix]
      rcases h.shadows i hi with heq | ⟨line, hline, hu⟩
      · exact .inl heq
      · exact .inr ⟨line, hline, (hm.unread i line hi hu).2 fun hd ↦ hix (Option.some.inj hd)⟩
  obtain ⟨budget', hlt, q', h'⟩ :=
    hf.exists_skip_jump (hm.follows _ rfl) hs hskip hjump hE hshadows
  refine .inr ⟨budget', by omega, _, q', r, h',
    fun r'' he ↦ .step hget rfl (Stmt.takes_branch r _ _ _) ?_⟩
  rw [apply_ite ρ, show n + 1 + 2 = n + 3 from rfl, hρ] at he
  simpa only [hflag] using he

/-- **From a line where the two are in step they go on, or end together.** -/
theorem Tracks.proceeds (h : p.Tracks code E budget n q r last) (hf : p.FusedAs code fused ρ E)
    (hip : p.ip ≠ 0) : p.Proceeds code fused ρ E budget (ρ n) r last := by
  cases hf.covers n h.entered with
  | off hs hget => exact h.proceeds_off hf hip hs hget
  | dropped hn hE hρ => exact h.proceeds_dropped hf hn hE hρ
  | kept hs hw hn hget hE hρ => exact h.proceeds_kept hf hip hs hw hn hget hE hρ
  | skip hs hskip hget hE₁ hρ₁ hE₂ hρ₂ => exact h.proceeds_skip hf hs hskip hget hE₁ hρ₁ hE₂ hρ₂
  | guarded hs hskip hget₀ hget₁ hE₁ hρ₁ hE₂ hρ₂ =>
    exact h.proceeds_guarded hf hs hskip hget₀ hget₁ hE₁ hρ₁ hE₂ hρ₂
  | guardFused hs hskip hjump hget hE hρ =>
    exact h.proceeds_guardFused hf hs hskip hjump hget hE hρ
  | fused hcompare hs hskip hjump hget hE hρ hinside =>
    exact h.proceeds_fused hf hcompare hs hskip hjump hget hE hρ hinside

/-- **Fused code ends where the machine halts, with the same word in register 0.** -/
theorem Tracks.endsByFlags (h : p.Tracks code E budget n q r last) (hf : p.FusedAs code fused ρ E)
    (hip : p.ip ≠ 0) :
    ∃ r', Code.EndsByFlags p.ip fused (ρ n) r r' ∧ last.get 0 = r'.get 0 := by
  induction budget using Nat.strongRecOn generalizing n q r with
  | ind budget ih =>
    rcases h.proceeds hf hip with hends | ⟨budget', hlt, n', q', r', h', hback⟩
    · exact hends
    · obtain ⟨r'', he, hzero⟩ := ih budget' hlt h'
      exact ⟨r'', hback r'' he, hzero⟩

end

end Program

end Unjump
