import Unjump.Proofs.FusedLines
import Unjump.Proofs.Nesting
import Unjump.Proofs.SideEntry

/-!
# Folding around skips

Where no fusion is left to be made there may still be skips, and the other folds are made around
them. A fold moves lines, so the skips behind it leave other numbers in the pointer register than
they did. Nothing else comes of this as long as no expression reads the pointer
(`Stmt.PointerFree`): the two runs agree off the pointer.

## Runs by flags

A skip goes on from its line by the word it adds. If that word is 0 or 1, control goes to the next
line or past it, and a fold that is made directly behind no skip keeps both (`Code.EndsByFlags`,
`Fold.Sound.endsByFlags_apply`). Inside of a fold the run is what it was: the statement that was put
in does what the stretch did.
-/

namespace Unjump

/-! ## What does not depend on the pointer -/

/-- The outcomes are the same off the pointer. -/
inductive Outcome.AgreeOff {α : Type} (ip : Reg) : Outcome α → Outcome α → Prop
  | done (a : α) {r q : Registers} (left : Nat) (h : r.AgreeOff ip q) :
    AgreeOff ip (.done a r left) (.done a q left)
  | exhausted : AgreeOff ip .exhausted .exhausted
  | fault : AgreeOff ip .fault .fault

/-- What it does does not depend on what the pointer register holds. -/
def Blind {α : Type} (ip : Reg) (f : Registers → Nat → Outcome α) : Prop :=
  ∀ r q n, r.AgreeOff ip q → (f r n).AgreeOff ip (f q n)

namespace Blind

variable {α β : Type} {ip : Reg}

theorem of_done (a : α) : Blind ip fun r n ↦ .done a r n :=
  fun _ _ n h ↦ .done a n h

theorem of_exhausted : Blind ip fun _ _ ↦ (.exhausted : Outcome α) :=
  fun _ _ _ _ ↦ .exhausted

theorem bind {f : Registers → Nat → Outcome α} {g : α → Registers → Nat → Outcome β}
    (hf : Blind ip f) (hg : ∀ a, Blind ip (g a)) : Blind ip fun r n ↦ (f r n).bind g := by
  intro r q n h
  have hagree := hf r q n h
  show ((f r n).bind g).AgreeOff ip ((f q n).bind g)
  generalize f r n = o, f q n = o' at hagree
  cases hagree with
  | done a left h' => exact hg a _ _ left h'
  | exhausted => exact .exhausted
  | fault => exact .fault

theorem andThen {f g : Registers → Nat → Outcome Flow} (hf : Blind ip f) (hg : Blind ip g) :
    Blind ip fun r n ↦ (f r n).andThen g := by
  refine hf.bind fun flow ↦ ?_
  cases flow with
  | next => exact hg
  | goto t => exact of_done _
  | halt => exact of_done _

theorem afterRound {f : Registers → Nat → Outcome Flow} (hf : Blind ip f)
    {stop : Registers → Bool} (hstop : ∀ r q, r.AgreeOff ip q → stop r = stop q) :
    Blind ip (Unjump.afterRound stop f) := by
  intro r q n h
  unfold Unjump.afterRound
  rw [← hstop r q h]
  split
  · exact .done _ n h
  · cases n with
    | zero => exact .exhausted
    | succ n => exact hf r q n h

theorem repeatUntil {body : Registers → Nat → Outcome Flow} (hb : Blind ip body)
    {stop : Registers → Bool} (hstop : ∀ r q, r.AgreeOff ip q → stop r = stop q) (rounds : Nat) :
    Blind ip (Unjump.repeatUntil body stop rounds) := by
  induction rounds with
  | zero => exact hb.andThen (of_exhausted.afterRound hstop)
  | succ rounds ih => exact hb.andThen (ih.afterRound hstop)

/-- What it takes from one register file, it takes from the other. -/
theorem takes {f : Registers → Nat → Outcome α} (hf : Blind ip f) (hexact : Exact f)
    {r r' q : Registers} {n : Nat} {a : α} (ht : Takes f r n a r') (h : r.AgreeOff ip q) :
    ∃ q', Takes f q n a q' ∧ r'.AgreeOff ip q' := by
  have hagree := hf r q (n + 0) h
  rw [ht 0] at hagree
  generalize ho : f q (n + 0) = o at hagree
  cases hagree with
  | @done _ _ q' _ h' =>
    obtain ⟨m, hm, ht'⟩ := hexact _ _ _ _ _ ho
    exact ⟨q', (show n = m from by omega) ▸ ht', h'⟩

end Blind

/-! ## Statements that do not read the pointer -/

/-- No expression of the statement reads the pointer, at whatever depth. -/
inductive Stmt.PointerFree (ip : Reg) : Stmt → Prop
  | intro {s : Stmt} (hexprs : ∀ e ∈ s.exprs, e.reads ip = false)
    (hbody : ∀ body ∈ s.body?, ∀ t ∈ body, PointerFree ip t) : PointerFree ip s

theorem Registers.AgreeOff.eval_eq {ip : Reg} {r q : Registers} (h : r.AgreeOff ip q) {e : Expr}
    (he : e.reads ip = false) : e.eval r = e.eval q := by
  refine e.eval_congr fun i hi ↦ h i ?_
  rintro rfl
  rw [he] at hi
  cases hi

/-- What the excepted register is set to does not matter. -/
theorem Registers.AgreeOff.set_both {ip : Reg} {r q : Registers} (h : r.AgreeOff ip q)
    (v w : Word) : (r.set ip v).AgreeOff ip (q.set ip w) := by
  intro j hj
  rw [get_set_of_ne r hj.symm, get_set_of_ne q hj.symm, h j hj]

theorem Code.blind_exec {ip : Reg} {body : List Stmt} (h : ∀ s ∈ body, Blind ip (s.exec ip)) :
    Blind ip (Code.exec ip body) := by
  induction body with
  | nil => exact .of_done _
  | cons s rest ih =>
    rw [List.forall_mem_cons] at h
    intro r q n hrq
    rw [Code.exec, Code.exec]
    split
    · exact .fault
    · exact h.1.andThen (ih h.2) r q n hrq

namespace Stmt.PointerFree

variable {ip : Reg}

theorem exprs {s : Stmt} (h : s.PointerFree ip) : ∀ e ∈ s.exprs, e.reads ip = false := by
  cases h with
  | intro hexprs _ => exact hexprs

theorem body {s : Stmt} {body : Code} (h : s.PointerFree ip) (hs : s.body? = some body) :
    ∀ t ∈ body, t.PointerFree ip := by
  cases h with
  | intro _ hbody => exact hbody body hs

/-- A flat statement has only its own expressions. -/
theorem of_flat {s : Stmt} (hs : s.isStructured = false)
    (h : ∀ e ∈ s.exprs, e.reads ip = false) : s.PointerFree ip := by
  refine .intro h fun body hbody ↦ ?_
  rw [isStructured, hbody] at hs
  cases hs

/-- **What does not read the pointer does not depend on it.** -/
theorem blind {s : Stmt} (h : s.PointerFree ip) : Blind ip (s.exec ip) := by
  induction h with
  | @intro s hexprs _ ih =>
    intro r q n hrq
    have eval {e : Expr} (he : e ∈ s.exprs) : e.eval r = e.eval q := hrq.eval_eq (hexprs e he)
    have holds {cond : Cond} (hc : cond.toExpr ∈ s.exprs) :
        ∀ r q, r.AgreeOff ip q → cond.holds r = cond.holds q := fun r q h ↦ by
      rw [Cond.holds, Cond.holds, Cond.eval, Cond.eval, h.eval_eq (hexprs _ hc)]
    cases n with
    | zero =>
      rw [Stmt.exec, Stmt.exec]
      exact .exhausted
    | succ n =>
      cases s with
      | assign dest value =>
        rw [Stmt.exec, Stmt.exec, eval List.mem_cons_self]
        exact .done _ n (hrq.set_set dest _)
      | update op dest value =>
        rw [Stmt.exec, Stmt.exec, eval List.mem_cons_self]
        by_cases hd : dest = ip
        · rw [hd]
          exact .done _ n (hrq.set_both _ _)
        · rw [hrq dest hd]
          exact .done _ n (hrq.set_set dest _)
      | compare cond dest =>
        rw [Stmt.exec, Stmt.exec, Cond.eval, Cond.eval, eval List.mem_cons_self]
        exact .done _ n (hrq.set_set dest _)
      | goto target =>
        rw [Stmt.exec, Stmt.exec]
        exact .done _ n hrq
      | branch cond ifTrue ifFalse =>
        rw [Stmt.exec, Stmt.exec, holds List.mem_cons_self r q hrq]
        exact .done _ n hrq
      | halt =>
        rw [Stmt.exec, Stmt.exec]
        exact .done _ n hrq
      | ifThen cond body =>
        rw [Stmt.exec, Stmt.exec, holds List.mem_cons_self r q hrq]
        split
        · exact Code.blind_exec (ih body rfl) r q n hrq
        · exact .done _ n hrq
      | doUntil cond body =>
        rw [Stmt.exec, Stmt.exec]
        exact (Code.blind_exec (ih body rfl)).repeatUntil (holds List.mem_cons_self) n r q n hrq
      | forUntil var init cond body =>
        have hround : Blind ip (countedBody ip var body) := by
          refine (Code.blind_exec (ih body rfl)).andThen fun r q n h ↦ .done _ n ?_
          by_cases hvar : var = ip
          · rw [hvar]
            exact h.set_both _ _
          · rw [h var hvar]
            exact h.set_set var _
        rw [Stmt.exec_forUntil]
        simp only [afterTick, eval List.mem_cons_self]
        exact hround.repeatUntil (holds (List.mem_cons_of_mem _ List.mem_cons_self)) n _ _ n
          (hrq.set_set var _)

theorem mapTargets {s : Stmt} (h : s.PointerFree ip) (g : Nat → Nat) :
    (s.mapTargets g).PointerFree ip := by
  induction h with
  | @intro s hexprs _ ih =>
    refine .intro (by rwa [exprs_mapTargets]) fun body hbody ↦ ?_
    have hbody' : s.body?.map (Code.mapTargets g) = some body := by
      rw [← hbody]
      cases s <;> rfl
    obtain ⟨body', hs, rfl⟩ := Option.map_eq_some_iff.mp hbody'
    rw [Code.mapTargets_eq_map]
    simpa using ih body' hs

end Stmt.PointerFree

/-- What a fold puts in reads what was read before. -/
theorem Pattern.pointerFree_of_find? {ip : Reg} {code : Code} {f : Fold} {p : Pattern}
    (hf : p.find? ip code = some f) (h : ∀ s ∈ code, s.PointerFree ip) :
    f.stmt.PointerFree ip := by
  have at_line {line : Nat} {s : Stmt} (hs : code[line]? = some s) : s.PointerFree ip :=
    h s (List.mem_of_getElem? hs)
  obtain ⟨line, -, hat⟩ := exists_of_firstFrom hf
  rw [Nat.zero_add] at hat
  cases p with
  | ifElse =>
    obtain ⟨cond, flag, target, hp, rfl⟩ := Code.ifElseAt_eq_some_iff.mp hat
    exact .of_flat rfl (at_line hp.compare).exprs
  | singleIf =>
    obtain ⟨cond, s, hbranch, hs, -, -, rfl⟩ := singleIf_shape hat
    refine .intro (at_line hbranch).exprs fun body hbody ↦ ?_
    cases hbody
    simpa using at_line hs
  | forLoop =>
    obtain ⟨var, init, cond, body, -, hinit, hloop, -, -, rfl⟩ := forLoop_shape hat
    refine .intro (fun e he ↦ ?_) fun body' hbody' ↦ ?_
    · rcases List.mem_cons.mp he with rfl | he
      · exact (at_line hinit).exprs _ List.mem_cons_self
      · exact (at_line hloop).exprs e he
    · cases hbody'
      exact fun t ht ↦ (at_line hloop).body rfl t (List.mem_append_left _ ht)
  | doWhile =>
    obtain ⟨cond, head, body, -, hblock, -, hbranch, -, -, rfl⟩ := doWhile_shape hat
    refine .intro (at_line hbranch).exprs fun body' hbody' ↦ ?_
    cases hbody'
    intro t ht
    obtain ⟨i, hi⟩ := List.mem_iff_getElem?.mp ht
    exact at_line (hblock i t hi)

theorem Fold.pointerFree_apply {ip : Reg} {code : Code} {f : Fold} {p : Pattern}
    (hf : p.find? ip code = some f) (h : ∀ s ∈ code, s.PointerFree ip) :
    ∀ s ∈ f.apply code, s.PointerFree ip := by
  intro s hs
  obtain ⟨s', rfl, rfl | hs'⟩ := exists_of_mem_apply hs
  · exact (Pattern.pointerFree_of_find? hf h).mapTargets _
  · exact (h s' hs').mapTargets _

theorem Pattern.pointerFree_foldAll {ip : Reg} (p : Pattern) (code : Code)
    (h : ∀ s ∈ code, s.PointerFree ip) : ∀ s ∈ p.foldAll ip code, s.PointerFree ip := by
  cases hfold : p.foldFirst? ip code with
  | none => rwa [foldAll_of_none hfold]
  | some code' =>
    have hlt := length_lt_of_foldFirst? hfold
    obtain ⟨f, hf, rfl⟩ := Option.map_eq_some_iff.mp hfold
    rw [foldAll_of_some hfold]
    exact pointerFree_foldAll p _ (Fold.pointerFree_apply hf h)
termination_by code.length

/-! ## Runs by flags -/

namespace Code

/-- From `line` with `r` the run halts with another register file, and every assignment to the
pointer that it comes to is a skip by 0 or 1. -/
inductive EndsByFlags (ip : Reg) (code : Code) : Nat → Registers → Registers → Prop
  | off {line : Nat} {r : Registers} (hs : code[line]? = none) : EndsByFlags ip code line r r
  | stop {line n : Nat} {r r' : Registers} {s : Stmt} (hs : code[line]? = some s)
    (hw : s.writesPointer ip = false) (ht : Takes (s.execAt ip line) r n none r') :
    EndsByFlags ip code line r r'
  | step {line line' n : Nat} {r r' r'' : Registers} {s : Stmt} (hs : code[line]? = some s)
    (hw : s.writesPointer ip = false) (ht : Takes (s.execAt ip line) r n (some line') r')
    (he : EndsByFlags ip code line' r' r'') : EndsByFlags ip code line r r''
  | skip {line : Nat} {x : Reg} {r r'' : Registers}
    (hs : code[line]? = some (.update .add ip (.reg x))) (hx : x ≠ ip) (hlt : line + 2 < 2 ^ 63)
    (hflag : r.get x = 0 ∨ r.get x = 1)
    (he : EndsByFlags ip code (if r.get x = 1 then line + 2 else line + 1)
      (r.set ip (Int64.ofNat line + r.get x)) r'') : EndsByFlags ip code line r r''

/-- A skip by 0 or 1 goes to the next line or past it. -/
theorem takes_skip_of_flag {ip x : Reg} {line : Nat} {r : Registers} (hx : x ≠ ip)
    (hlt : line + 2 < 2 ^ 63) (hflag : r.get x = 0 ∨ r.get x = 1) :
    Takes ((Stmt.update .add ip (.reg x)).execAt ip line) r 1
      (some (if r.get x = 1 then line + 2 else line + 1))
      (r.set ip (Int64.ofNat line + r.get x)) := by
  refine takes_skip_iff.mpr ?_
  rw [Registers.skipped_of_ne hx]
  refine ⟨rfl, rfl, ?_⟩
  rcases hflag with h | h
  · rw [h, if_neg (by decide), Int64.add_zero, Word.ofNat_succ, Word.line?_ofNat (by omega)]
  · rw [h, if_pos rfl, Word.ofNat_succ, Word.ofNat_succ, Word.line?_ofNat hlt]

namespace EndsByFlags

variable {ip : Reg} {code : Code} {line line' n : Nat} {r r' r'' : Registers}

theorem ends (h : EndsByFlags ip code line r r') : ∃ n, Ends ip code line r n r' := by
  induction h with
  | off hs => exact ⟨0, .off hs⟩
  | stop hs _ ht => exact ⟨_, .stop hs ht⟩
  | step hs _ ht _ ih =>
    obtain ⟨n, he⟩ := ih
    exact ⟨_, .step hs ht he⟩
  | skip hs hx hlt hflag _ ih =>
    obtain ⟨n, he⟩ := ih
    exact ⟨_, .step hs (takes_skip_of_flag hx hlt hflag) he⟩

/-- Such a run goes on from every state that control gets to. -/
theorem of_reaches (h : EndsByFlags ip code line r r'') (hr : Reaches ip code line r n line' r') :
    EndsByFlags ip code line' r' r'' := by
  induction hr with
  | refl => exact h
  | step hs ht _ ih =>
    refine ih ?_
    cases h with
    | off hs' =>
      rw [hs'] at hs
      cases hs
    | stop hs' _ ht' =>
      rw [hs'] at hs
      cases hs
      cases (ht.unique ht').2.1
    | step hs' _ ht' he =>
      rw [hs'] at hs
      cases hs
      obtain ⟨-, hline, rfl⟩ := ht.unique ht'
      cases hline
      exact he
    | skip hs' hx hlt hflag he =>
      rw [hs'] at hs
      cases hs
      obtain ⟨-, hline, rfl⟩ := ht.unique (takes_skip_of_flag hx hlt hflag)
      cases hline
      exact he

end EndsByFlags

end Code

/-! ## Folds -/

namespace Fold

variable {f : Fold} {ip : Reg} {code : Code}

/-- A skip that is kept, and not directly before the fold, lands on lines that are kept. -/
theorem Keeps.of_skip {line : Nat} (hk : f.Keeps line) (hne : line ≠ f.start)
    (hb : line + 1 ≠ f.start) :
    f.Keeps (line + 2) ∧ f.renumber (line + 2) = f.renumber line + 2 := by
  refine keeps_add (j := 2) ?_ (Nat.le_refl 2)
  rcases hk with hk | hk
  · exact .inl (by omega)
  · exact .inr hk

/-- **Folded code ends as the code did, off the pointer**, if the fold is not made directly behind
a skip. -/
theorem Sound.endsByFlags_apply (h : f.Sound ip code) (hfree : ∀ s ∈ code, s.PointerFree ip)
    (hstmt : f.stmt.PointerFree ip) (hb : ¬f.BehindSkip ip code) {r r' : Registers}
    (he : Code.EndsByFlags ip code 0 r r') :
    ∃ q', Code.EndsByFlags ip (f.apply code) 0 r q' ∧ r'.AgreeOff ip q' := by
  -- the induction is on the steps that are left, since a fold is passed in many of them
  have general (n : Nat) : ∀ {line r r' q}, Code.Ends ip code line r n r' →
      Code.EndsByFlags ip code line r r' → f.Keeps line → r.AgreeOff ip q →
        ∃ q', Code.EndsByFlags ip (f.apply code) (f.renumber line) q q' ∧ r'.AgreeOff ip q' := by
    induction n using Nat.strongRecOn with
    | ind n ih =>
      intro line r r' q hends he hk hq
      by_cases hne : line = f.start
      · subst hne
        rw [renumber_of_le (Nat.le_refl _)]
        have hget := getElem?_apply_start h.fits
        have hw : (f.stmt.mapTargets f.renumber).writesPointer ip = false := by
          rw [Stmt.writesPointer_mapTargets, h.plain]
        rcases h.passes hends with ⟨m, ht⟩ | ⟨k, n₁, m, flow, line, r₁, rfl, hm, ht, hnext, hends₁⟩
        · obtain ⟨q', ht', hq'⟩ := hstmt.blind.takes (Stmt.exact_exec ip _) ht hq
          exact ⟨q', .stop hget hw (h.takes_start_iff.mpr ⟨.halt, rfl, ht'⟩), hq'⟩
        · obtain ⟨q₁, ht₁, hq₁⟩ := hstmt.blind.takes (Stmt.exact_exec ip _) ht hq
          obtain ⟨_, hreach⟩ := h.leaves ht hnext
          have hpos := Stmt.pos_of_takes ht
          obtain ⟨q', he', hq'⟩ := ih n₁ (by omega) hends₁ (he.of_reaches hreach)
            (h.keeps_of_takes ht hnext) hq₁
          have hstep := h.takes_start_iff.mpr ⟨flow, rfl, ht₁⟩
          rw [hnext, Option.map_some] at hstep
          exact ⟨q', .step hget hw hstep he', hq'⟩
      · have hget := getElem?_apply h.fits hk hne
        cases he with
        | off hs =>
          rw [hs, Option.map_none] at hget
          exact ⟨q, .off hget, hq⟩
        | @stop _ m _ _ s hs hw ht =>
          rw [hs, Option.map_some] at hget
          rw [takes_execAt_none_iff hw] at ht
          obtain ⟨q', ht', hq'⟩ := (hfree s (List.mem_of_getElem? hs)).blind.takes
            (Stmt.exact_exec ip s) ht hq
          have hstop := (takes_execAt_mapTargets_iff hw (hk.renumber_succ hne)).mpr
            ⟨none, rfl, (takes_execAt_none_iff hw).mpr ht'⟩
          exact ⟨q', .stop hget (by rw [Stmt.writesPointer_mapTargets, hw]) hstop, hq'⟩
        | @step _ next m _ r₁ _ s hs hw ht he =>
          rw [hs, Option.map_some] at hget
          have hnext := Fold.keeps_of_takes h.isSealed hs hw hk hne ht
          obtain ⟨n₁, hn, hends₁⟩ := hends.of_reaches (.single hs ht)
          have hpos := Stmt.pos_of_takes_execAt ht
          obtain ⟨flow, hflow, hexec⟩ := (takes_execAt_iff hw).mp ht
          obtain ⟨q₁, hexec₁, hq₁⟩ := (hfree s (List.mem_of_getElem? hs)).blind.takes
            (Stmt.exact_exec ip s) hexec hq
          obtain ⟨q', he', hq'⟩ := ih n₁ (by omega) hends₁ he hnext hq₁
          have hstep := (takes_execAt_mapTargets_iff hw (hk.renumber_succ hne)).mpr
            ⟨some next, rfl, (takes_execAt_iff hw).mpr ⟨flow, hflow, hexec₁⟩⟩
          exact ⟨q', .step hget (by rw [Stmt.writesPointer_mapTargets, hw]) hstep he', hq'⟩
        | @skip _ x _ _ hs hx hlt hflag he =>
          rw [hs, Option.map_some] at hget
          have hbefore : line + 1 ≠ f.start := fun heq ↦
            hb ⟨line, _, heq, hs, by simp [Stmt.writesPointer]⟩
          obtain ⟨hk₂, hren₂⟩ := hk.of_skip hne hbefore
          obtain ⟨n₁, hn, hends₁⟩ := hends.of_reaches
            (.single hs (Code.takes_skip_of_flag hx hlt hflag))
          have hle : f.renumber line ≤ line := by
            unfold renumber
            split <;> omega
          have hqx : q.get x = r.get x := (hq x hx).symm
          have hland : f.renumber (if r.get x = 1 then line + 2 else line + 1) =
              if q.get x = 1 then f.renumber line + 2 else f.renumber line + 1 := by
            rw [hqx, apply_ite f.renumber, hren₂, hk.renumber_succ hne]
          have hkeeps : f.Keeps (if r.get x = 1 then line + 2 else line + 1) := by
            split
            · exact hk₂
            · exact hk.succ hne
          obtain ⟨q', he', hq'⟩ := ih n₁ (by omega) hends₁ he hkeeps
            (hq.set_both _ (Int64.ofNat (f.renumber line) + q.get x))
          rw [hland] at he'
          exact ⟨q', .skip hget hx (by omega) (by rwa [hqx]) he', hq'⟩
  obtain ⟨n, hends⟩ := he.ends
  have hzero := general n hends he f.keeps_zero (.refl ip r)
  rwa [renumber_of_le (Nat.zero_le _)] at hzero

end Fold

/-- **Recovered code ends as the code did, off the pointer**, where nothing is left to be fused and
no fold is made directly behind a skip. -/
theorem Code.endsByFlags_recover {ip : Reg} {code : Code} (hclear : Recover.Clear ip code)
    (hnone : Pattern.ifElse.find? ip code = none) (hfree : ∀ s ∈ code, s.PointerFree ip)
    {r r' : Registers} (he : EndsByFlags ip code 0 r r') :
    ∃ q', EndsByFlags ip (Code.recover ip code) 0 r q' ∧ r'.AgreeOff ip q' := by
  induction hclear generalizing r' with
  | done hstep =>
    rw [recover_of_none hstep]
    exact ⟨r', he, .refl ip r'⟩
  | @fold code p f hstep hf hb _ ih =>
    have hp : p ≠ .ifElse := by
      rintro rfl
      rw [hnone] at hf
      cases hf
    obtain ⟨q₁, he₁, hq₁⟩ := (Pattern.sound_of_find? hp hf).endsByFlags_apply hfree
      (Pattern.pointerFree_of_find? hf hfree) hb he
    rw [recover_of_some hstep]
    obtain ⟨q₂, he₂, hq₂⟩ := ih ((Pattern.tidy_of_find? hp hf).1.find?_ifElse_apply hnone)
      (Fold.pointerFree_apply hf hfree) he₁
    exact ⟨q₂, he₂, fun i hi ↦ (hq₁ i hi).trans (hq₂ i hi)⟩

end Unjump
