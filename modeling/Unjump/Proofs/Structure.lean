import Unjump.Fold.Recover
import Unjump.Proofs.Renumbering

/-!
# Recovered structure keeps the meaning

As long as code has no assignment to the pointer outside of bodies, folding changes nothing about
how its runs end. Each of the three shapes that put in a structured statement is shown to be sound
in the sense of `Fold.Sound`: the new statement does what its stretch of lines did. Recovering is
then a sequence of sound folds.

The fourth shape needs a skip, an assignment to the pointer, so it is not found in such code. Nor
does any fold bring such an assignment about.

## The loop

The stretch of a do-while goes around by a branch back to its head, the new statement by its rounds.
From lines to rounds the induction is on the steps of the path, since a path to the end may go
around any number of times; from rounds to lines it is on the rounds. In both a pass over the body
is a block of lines without transfers (`Code.ends_block`, `Code.reaches_block`), which control
leaves only at its end or by stopping.
-/

namespace Unjump

/-! ## Statements without transfers -/

mutual

theorem Stmt.targets_eq_nil {ip : Reg} (s : Stmt) (h : s.transfers ip = false) :
    s.targets = [] := by
  cases s with
  | goto t => cases h
  | branch cond ifTrue ifFalse => cases h
  | ifThen cond body => exact Code.targets_eq_nil body h
  | doUntil cond body => exact Code.targets_eq_nil body h
  | forUntil var init cond body => exact Code.targets_eq_nil body h
  | _ => rfl

theorem Code.targets_eq_nil {ip : Reg} (code : List Stmt) (h : Code.transfers ip code = false) :
    Code.targets code = [] := by
  cases code with
  | nil => rfl
  | cons s rest =>
    rw [Code.transfers, Bool.or_eq_false_iff] at h
    rw [Code.targets, Stmt.targets_eq_nil s h.1, Code.targets_eq_nil rest h.2, List.append_nil]

end

theorem Stmt.writesPointer_eq_false {ip : Reg} {s : Stmt} (h : s.transfers ip = false) :
    s.writesPointer ip = false := by
  cases s with
  | assign dest value => exact h
  | update op dest value => exact h
  | _ => rfl

theorem Code.mem_targets_iff {code : Code} {t : Nat} :
    t ∈ Code.targets code ↔ ∃ (line : Nat) (s : Stmt), code[line]? = some s ∧ t ∈ s.targets := by
  rw [Code.targets_eq_flatMap, List.mem_flatMap]
  constructor
  · rintro ⟨s, hs, ht⟩
    obtain ⟨line, hline⟩ := List.mem_iff_getElem?.mp hs
    exact ⟨line, s, hline, ht⟩
  · rintro ⟨line, s, hline, ht⟩
    exact ⟨s, List.mem_of_getElem? hline, ht⟩

/-- The targets of all statements but one. -/
theorem Code.mem_targets_eraseIdx_iff {code : Code} {k t : Nat} :
    t ∈ Code.targets (code.eraseIdx k) ↔
      ∃ (line : Nat) (s : Stmt), line ≠ k ∧ code[line]? = some s ∧ t ∈ s.targets := by
  rw [Code.targets_eq_flatMap, List.mem_flatMap]
  simp only [List.mem_eraseIdx_iff_getElem?]
  constructor
  · rintro ⟨s, ⟨line, hne, hline⟩, ht⟩
    exact ⟨line, s, hne, hline, ht⟩
  · rintro ⟨line, s, hne, hline, ht⟩
    exact ⟨s, ⟨line, hne, hline⟩, ht⟩

theorem Code.mem_flows_of_getElem? {code : Code} {line : Nat} {s : Stmt} {flow : Flow}
    (hs : code[line]? = some s) (h : flow ∈ s.flows) : flow ∈ Code.flows code := by
  rw [Code.flows_eq_flatMap]
  exact List.mem_flatMap.mpr ⟨s, List.mem_of_getElem? hs, h⟩

/-! ## Blocks of lines -/

namespace Code

variable {ip : Reg} {code : Code}

/-- The lines from `line` on hold these statements. -/
def HasBlock (code : Code) (line : Nat) (block : List Stmt) : Prop :=
  ∀ i s, block[i]? = some s → code[line + i]? = some s

theorem HasBlock.head {line : Nat} {s : Stmt} {rest : List Stmt}
    (h : HasBlock code line (s :: rest)) : code[line]? = some s :=
  h 0 s rfl

theorem HasBlock.tail {line : Nat} {s : Stmt} {rest : List Stmt}
    (h : HasBlock code line (s :: rest)) : HasBlock code (line + 1) rest := by
  intro i s' hs'
  rw [show line + 1 + i = line + (i + 1) from by omega]
  exact h (i + 1) s' (by rwa [List.getElem?_cons_succ])

theorem hasBlock_take_drop (code : Code) (line n : Nat) :
    HasBlock code line ((code.drop line).take n) := by
  intro i s hs
  rw [List.getElem?_take, List.getElem?_drop] at hs
  split at hs
  · exact hs
  · cases hs

/-- Control that enters a block without transfers stops in it or comes out at its end. -/
theorem ends_block {line n : Nat} {r r' : Registers} {block : List Stmt}
    (hblock : HasBlock code line block) (hquiet : Code.transfers ip block = false)
    (he : Ends ip code line r n r') :
    Takes (Code.exec ip block) r n .halt r' ∨
      ∃ k n₁ r₁, n = k + n₁ ∧ Takes (Code.exec ip block) r k .next r₁ ∧
        Ends ip code (line + block.length) r₁ n₁ r' := by
  induction block generalizing line r n with
  | nil => exact .inr ⟨0, n, r, by omega, takes_nil_iff.mpr ⟨rfl, rfl, rfl⟩, he⟩
  | cons s rest ih =>
    rw [Code.transfers, Bool.or_eq_false_iff] at hquiet
    have hw := Stmt.writesPointer_eq_false hquiet.1
    rcases he.cases_of_some hblock.head with ht | ⟨k, m, next, r₁, rfl, ht, he⟩
    · have hstop := (takes_execAt_none_iff hw).mp ht
      exact .inl (takes_cons_iff.mpr ⟨hw, .inl ⟨by simp, hstop⟩⟩)
    · obtain ⟨flow, hflow, hs⟩ := (takes_execAt_iff hw).mp ht
      cases flow with
      | goto t =>
        have hmem := Stmt.mem_targets_of_takes s hs
        rw [Stmt.targets_eq_nil s hquiet.1] at hmem
        cases hmem
      | halt => cases hflow
      | next =>
        cases hflow
        rcases ih hblock.tail hquiet.2 he with hrest | ⟨k', n₁, r₂, rfl, hrest, he'⟩
        · exact .inl (takes_cons_iff.mpr ⟨hw, .inr ⟨k, m, r₁, rfl, hs, hrest⟩⟩)
        · refine .inr ⟨k + k', n₁, r₂, by omega,
            takes_cons_iff.mpr ⟨hw, .inr ⟨k, k', r₁, rfl, hs, hrest⟩⟩, ?_⟩
          rwa [List.length_cons, Nat.add_comm rest.length, ← Nat.add_assoc]

/-- Control that runs through the statements of a block runs through its lines. -/
theorem reaches_block {line n : Nat} {r r' : Registers} {block : List Stmt}
    (hblock : HasBlock code line block) (ht : Takes (Code.exec ip block) r n .next r') :
    Reaches ip code line r n (line + block.length) r' := by
  induction block generalizing line r n with
  | nil =>
    obtain ⟨rfl, -, rfl⟩ := takes_nil_iff.mp ht
    exact .refl
  | cons s rest ih =>
    obtain ⟨hw, ⟨hne, -⟩ | ⟨k, m, r₁, rfl, hs, hrest⟩⟩ := takes_cons_iff.mp ht
    · exact absurd rfl hne
    · rw [List.length_cons, Nat.add_comm rest.length, ← Nat.add_assoc]
      exact .step hblock.head ((takes_execAt_iff hw).mpr ⟨.next, rfl, hs⟩) (ih hblock.tail hrest)

theorem ends_of_block {line n : Nat} {r r' : Registers} {block : List Stmt}
    (hblock : HasBlock code line block) (ht : Takes (Code.exec ip block) r n .halt r') :
    Ends ip code line r n r' := by
  induction block generalizing line r n with
  | nil => cases (takes_nil_iff.mp ht).2.1
  | cons s rest ih =>
    obtain ⟨hw, ⟨-, hs⟩ | ⟨k, m, r₁, rfl, hs, hrest⟩⟩ := takes_cons_iff.mp ht
    · exact .stop hblock.head ((takes_execAt_none_iff hw).mpr hs)
    · exact .step hblock.head ((takes_execAt_iff hw).mpr ⟨.next, rfl, hs⟩) (ih hblock.tail hrest)

theorem takes_branch (ip : Reg) (line : Nat) (cond : Cond) (ifTrue ifFalse : Nat) (r : Registers) :
    Takes ((Stmt.branch cond ifTrue ifFalse).execAt ip line) r 1
      (some (if cond.holds r then ifTrue else ifFalse)) r :=
  (takes_execAt_iff rfl).mpr ⟨.goto _, rfl, Stmt.takes_of_tick fun left ↦ by rw [Stmt.exec]⟩

/-- A path to the end from a branch goes on at one of its targets. -/
theorem Ends.of_branch {line n ifTrue ifFalse : Nat} {r r' : Registers} {cond : Cond}
    (h : Ends ip code line r n r') (hs : code[line]? = some (.branch cond ifTrue ifFalse)) :
    ∃ m, n = 1 + m ∧ Ends ip code (if cond.holds r then ifTrue else ifFalse) r m r' := by
  have hbranch := takes_branch ip line cond ifTrue ifFalse r
  rcases h.cases_of_some hs with ht | ⟨k, m, next, r₁, rfl, ht, he⟩
  · cases (hbranch.unique ht).2.1
  · obtain ⟨rfl, hnext, rfl⟩ := hbranch.unique ht
    cases hnext
    exact ⟨m, rfl, he⟩

/-! ## Loops over lines -/

section

variable {head : Nat} {cond : Cond} {body : List Stmt}

/-- Control that enters a loop over lines stops in it, or leaves it after as many rounds as the
loop over the same statements has. -/
theorem ends_loop (hbody : HasBlock code head body) (hquiet : Code.transfers ip body = false)
    (hback : code[head + body.length]? = some (.branch cond (head + body.length + 1) head))
    {n : Nat} {r r' : Registers} (he : Ends ip code head r n r') :
    (∃ m, Rounds (Code.exec ip body) cond.holds r m .halt r') ∨
      ∃ m n₁ r₁, n = m + 1 + n₁ ∧ Rounds (Code.exec ip body) cond.holds r m .next r₁ ∧
        Ends ip code (head + body.length + 1) r₁ n₁ r' := by
  -- on the steps to the end: the number of rounds is not known before the loop is left
  induction n using Nat.strongRecOn generalizing r with
  | ind n ih =>
    rcases ends_block hbody hquiet he with hstop | ⟨k, n₁, r₁, rfl, hround, he⟩
    · exact .inl ⟨n, .leave hstop (by simp)⟩
    · obtain ⟨n₂, rfl, hnext⟩ := he.of_branch hback
      by_cases hc : cond.holds r₁
      · rw [if_pos hc] at hnext
        exact .inr ⟨k, n₂, r₁, by omega, .stop hround hc, hnext⟩
      · rw [if_neg hc] at hnext
        have hc' : cond.holds r₁ = false := by simpa using hc
        rcases ih n₂ (by omega) hnext with ⟨m, hr⟩ | ⟨m, n₃, r₂, rfl, hr, he⟩
        · exact .inl ⟨k + (m + 1), .again hround hc' hr⟩
        · exact .inr ⟨k + (m + 1), n₃, r₂, by omega, .again hround hc' hr, he⟩

theorem reaches_round (hbody : HasBlock code head body)
    (hback : code[head + body.length]? = some (.branch cond (head + body.length + 1) head))
    {k : Nat} {r r₁ : Registers} (hb : Takes (Code.exec ip body) r k .next r₁) :
    Reaches ip code head r (k + 1)
      (if cond.holds r₁ then head + body.length + 1 else head) r₁ :=
  (reaches_block hbody hb).trans (.single hback (takes_branch ip _ cond _ _ r₁))

/-- A loop over statements that runs to its end is a loop over their lines. -/
theorem reaches_loop (hbody : HasBlock code head body)
    (hback : code[head + body.length]? = some (.branch cond (head + body.length + 1) head))
    {m : Nat} {r r' : Registers} {flow : Flow}
    (hr : Rounds (Code.exec ip body) cond.holds r m flow r') (hflow : flow = .next) :
    Reaches ip code head r (m + 1) (head + body.length + 1) r' := by
  induction hr with
  | leave _ hne => exact absurd hflow hne
  | stop hb hs =>
    have hround := reaches_round hbody hback hb
    rwa [if_pos hs] at hround
  | @again r r₁ r₂ k m flow hb hs _ ih =>
    have hround := reaches_round hbody hback hb
    rw [hs, if_neg Bool.false_ne_true] at hround
    rw [show k + (m + 1) + 1 = k + 1 + (m + 1) from by omega]
    exact hround.trans (ih hflow)

theorem ends_of_loop (hbody : HasBlock code head body)
    (hback : code[head + body.length]? = some (.branch cond (head + body.length + 1) head))
    {m : Nat} {r r' : Registers} {flow : Flow}
    (hr : Rounds (Code.exec ip body) cond.holds r m flow r') (hflow : flow = .halt) :
    Ends ip code head r m r' := by
  induction hr with
  | leave hb _ =>
    subst hflow
    exact ends_of_block hbody hb
  | stop _ _ => cases hflow
  | @again r r₁ r₂ k m flow hb hs _ ih =>
    have hround := reaches_round hbody hback hb
    rw [hs, if_neg Bool.false_ne_true] at hround
    rw [show k + (m + 1) = k + 1 + m from by omega]
    exact hround.ends (ih hflow)

end

end Code

/-! ## What the shapes say -/

namespace Pattern

variable {ip : Reg} {code : Code} {line : Nat} {f : Fold}

theorem getElem?_of_drop {s : Stmt} {rest : Code} (h : code.drop line = s :: rest) :
    code[line]? = some s ∧ code.drop (line + 1) = rest := by
  constructor
  · rw [← Nat.add_zero line, ← List.getElem?_drop, h]
    rfl
  · rw [← List.drop_drop, h]
    rfl

theorem singleIf_shape (h : singleIfAt ip code line (code.drop line) = some f) :
    ∃ cond s, code[line]? = some (.branch cond (line + 1) (line + 2)) ∧
      code[line + 1]? = some s ∧ s.writesPointer ip = false ∧
      (∀ (l : Nat) (s' : Stmt), l ≠ line → code[l]? = some s' → line + 1 ∉ s'.targets) ∧
      f = ⟨line, 1, .ifThen cond [s]⟩ := by
  unfold singleIfAt at h
  split at h
  · next cond ifTrue ifFalse s rest hdrop =>
    split at h
    · next hguard =>
      cases h
      obtain ⟨hbranch, hrest⟩ := getElem?_of_drop hdrop
      simp only [Bool.and_eq_true, beq_iff_eq, Bool.not_eq_true', List.any_eq_false] at hguard
      obtain ⟨⟨⟨rfl, rfl⟩, hw⟩, hnone⟩ := hguard
      refine ⟨cond, s, hbranch, (getElem?_of_drop hrest).1, hw, ?_, rfl⟩
      intro l s' hne hs' hmem
      exact hnone _ (Code.mem_targets_eraseIdx_iff.mpr ⟨l, s', hne, hs', hmem⟩) rfl
    · cases h
  · cases h

theorem forLoop_shape (h : forLoopAt ip code line (code.drop line) = some f) :
    ∃ var init cond body, var ≠ ip ∧ code[line]? = some (.assign var init) ∧
      code[line + 1]? = some (.doUntil cond (body ++ [.update .add var (.lit 1)])) ∧
      Code.transfers ip (body ++ [.update .add var (.lit 1)]) = false ∧
      line + 1 ∉ Code.targets code ∧ f = ⟨line, 1, .forUntil var init cond body⟩ := by
  unfold forLoopAt at h
  split at h
  · next var init cond body rest hdrop =>
    split at h
    · next hguard =>
      cases h
      obtain ⟨hassign, hrest⟩ := getElem?_of_drop hdrop
      simp only [Bool.and_eq_true, Bool.not_eq_true', List.any_eq_false] at hguard
      obtain ⟨⟨hlast, hquiet⟩, hnone⟩ := hguard
      obtain ⟨s, hs, hcount⟩ := (Option.any_eq_true _ _).mp hlast
      obtain ⟨init', rfl⟩ := List.getLast?_eq_some_iff.mp hs
      have hs : s = .update .add var (.lit 1) := by
        unfold countsUp at hcount
        split at hcount
        · simp only [Bool.and_eq_true, beq_iff_eq] at hcount
          rw [hcount.1, hcount.2]
        · cases hcount
      subst hs
      refine ⟨var, init, cond, init', ?_, hassign, (getElem?_of_drop hrest).1, hquiet, ?_, ?_⟩
      · simp only [Code.transfers_eq_any, List.any_append, List.any_cons, Bool.or_eq_false_iff,
          Stmt.transfers, beq_eq_false_iff_ne] at hquiet
        exact hquiet.2.1
      · intro hmem
        exact hnone _ hmem (by simp)
      · rw [List.dropLast_concat]
    · cases h
  · cases h

theorem doWhile_shape (h : doWhileAt ip code line (code.drop line) = some f) :
    ∃ cond head body, head < line ∧ Code.HasBlock code head body ∧ head + body.length = line ∧
      code[line]? = some (.branch cond (line + 1) head) ∧ Code.transfers ip body = false ∧
      (∀ (l : Nat) (s' : Stmt), l ≠ line → code[l]? = some s' → ∀ t ∈ s'.targets,
        ¬(head < t ∧ t ≤ line)) ∧
      f = ⟨head, line - head, .doUntil cond body⟩ := by
  simp only [doWhileAt] at h
  split at h
  · next cond ifTrue head rest hdrop =>
    split at h
    · next hguard =>
      cases h
      obtain ⟨hbranch, -⟩ := getElem?_of_drop hdrop
      simp only [Bool.and_eq_true, beq_iff_eq, Bool.not_eq_true', List.any_eq_false,
        decide_eq_true_eq] at hguard
      obtain ⟨⟨⟨rfl, hlt⟩, hquiet⟩, hnone⟩ := hguard
      have hline : line < code.length := (List.getElem?_eq_some_iff.mp hbranch).1
      refine ⟨cond, head, _, hlt, Code.hasBlock_take_drop code head _, ?_, hbranch, hquiet, ?_, rfl⟩
      · rw [List.length_take, List.length_drop]
        omega
      · intro l s' hne hs' t hmem hin
        exact hnone t (Code.mem_targets_eraseIdx_iff.mpr ⟨l, s', hne, hs', hmem⟩) hin
    · cases h
  · cases h

/-! ## Each shape is sound -/

theorem takes_singleton_iff {s : Stmt} (hw : s.writesPointer ip = false) {r r' : Registers}
    {n : Nat} {flow : Flow} :
    Takes (Code.exec ip [s]) r n flow r' ↔ Takes (s.exec ip) r n flow r' := by
  rw [takes_cons_iff]
  simp only [takes_nil_iff]
  constructor
  · rintro ⟨-, ⟨-, h⟩ | ⟨_, _, _, rfl, h, rfl, rfl, rfl⟩⟩
    · exact h
    · exact h
  · intro h
    refine ⟨hw, ?_⟩
    by_cases hflow : flow = .next
    · subst hflow
      exact .inr ⟨n, 0, r', rfl, h, rfl, rfl, rfl⟩
    · exact .inl ⟨hflow, h⟩

theorem sound_singleIf (h : singleIfAt ip code line (code.drop line) = some f) :
    f.Sound ip code := by
  have hfits : f.Fits code := fits_of_foldAt? (p := singleIf) h
  obtain ⟨cond, s, hbranch, hs, hw, hnone, rfl⟩ := singleIf_shape h
  have keeps {t : Nat} (hne : t ≠ line + 1) : Fold.Keeps ⟨line, 1, .ifThen cond [s]⟩ t := by
    simp only [Fold.Keeps]
    omega
  have htrue {r : Registers} (hc : cond.holds r = true) :
      Code.Reaches ip code line r 1 (line + 1) r := by
    refine .single hbranch ?_
    have ht := Code.takes_branch ip line cond (line + 1) (line + 2) r
    rwa [if_pos hc] at ht
  refine ⟨hfits, ?_, rfl, ?_, ?_, ?_, ?_, ?_⟩
  · intro l s' hs' _ hne t ht
    exact keeps fun heq ↦ hnone l s' hne hs' (heq ▸ ht)
  · intro t ht
    refine keeps fun heq ↦ hnone (line + 1) s (by omega) hs ?_
    rw [← heq]
    simpa [Stmt.targets, Code.targets] using ht
  · intro flow hflow
    refine Code.mem_flows_of_getElem? hs ?_
    simpa [Stmt.flows, Code.flows] using hflow
  · intro r n r' he
    obtain ⟨n, rfl, hgo⟩ := he.of_branch hbranch
    by_cases hc : cond.holds r
    · rw [if_pos hc] at hgo
      rcases hgo.cases_of_some hs with ht | ⟨k, n₁, next, r₁, rfl, ht, hend⟩
      · have hbody := (takes_singleton_iff hw).mpr ((takes_execAt_none_iff hw).mp ht)
        exact .inl ⟨n + 1, takes_ifThen_iff.mpr ⟨n, rfl, .inl ⟨hc, hbody⟩⟩⟩
      · obtain ⟨flow, hflow, ht⟩ := (takes_execAt_iff hw).mp ht
        have hbody := (takes_singleton_iff hw).mpr ht
        exact .inr ⟨k + 1, n₁, k + 1, flow, next, r₁, by omega, Nat.le_refl _,
          takes_ifThen_iff.mpr ⟨k, rfl, .inl ⟨hc, hbody⟩⟩, hflow.symm, hend⟩
    · rw [if_neg hc] at hgo
      exact .inr ⟨1, n, 1, .next, line + 2, r, rfl, Nat.le_refl _,
        takes_ifThen_iff.mpr ⟨0, rfl, .inr ⟨by simpa using hc, rfl, rfl, rfl⟩⟩, rfl, hgo⟩
  · intro r m r' ht
    obtain ⟨m, rfl, ⟨hc, hb⟩ | ⟨-, -, hflow, -⟩⟩ := takes_ifThen_iff.mp ht
    · have hstop : Takes (s.execAt ip (line + 1)) r m none r' :=
        (takes_execAt_none_iff hw).mpr ((takes_singleton_iff hw).mp hb)
      exact ⟨1 + m, (htrue hc).ends (.stop hs hstop)⟩
    · cases hflow
  · intro r m r' flow next ht hnext
    obtain ⟨m, rfl, ⟨hc, hb⟩ | ⟨hc, -, rfl, rfl⟩⟩ := takes_ifThen_iff.mp ht
    · have hgo : Takes (s.execAt ip (line + 1)) r m (some next) r' :=
        (takes_execAt_iff hw).mpr ⟨flow, hnext.symm, (takes_singleton_iff hw).mp hb⟩
      exact ⟨1 + m, (htrue hc).trans (.single hs hgo)⟩
    · cases hnext
      have hfalse := Code.takes_branch ip line cond (line + 1) (line + 2) r'
      rw [hc, if_neg Bool.false_ne_true] at hfalse
      exact ⟨1, .single hbranch hfalse⟩

/-- A body that ends by counting up does what a counting loop does in one round, with one step
more for the counting. -/
theorem takes_countUp_iff {var : Reg} (hvar : var ≠ ip) {body : List Stmt} {r r' : Registers}
    {n : Nat} {flow : Flow} :
    Takes (Code.exec ip (body ++ [.update .add var (.lit 1)])) r n flow r' ↔
      ∃ m, n = m + (if flow = .next then 1 else 0) ∧
        Takes (countedBody ip var body) r m flow r' := by
  have hw : (Stmt.update .add var (.lit 1)).writesPointer ip = false := by
    simpa [Stmt.writesPointer] using hvar
  have hcount (r : Registers) : Takes ((Stmt.update .add var (.lit 1)).exec ip) r 1 .next
      (r.set var (r.get var + 1)) :=
    Stmt.takes_of_tick fun left ↦ by rw [Stmt.exec]; rfl
  rw [takes_append_iff]
  simp only [takes_countedBody_iff, takes_singleton_iff hw]
  constructor
  · rintro (⟨hne, hb⟩ | ⟨m₁, m₂, r₁, rfl, hb, hc⟩)
    · exact ⟨n, by simp [hne], .inl ⟨hne, hb⟩⟩
    · obtain ⟨rfl, rfl, rfl⟩ := hc.unique (hcount r₁)
      exact ⟨m₁, by simp, .inr ⟨rfl, r₁, hb, rfl⟩⟩
  · rintro ⟨m, rfl, ⟨hne, hb⟩ | ⟨rfl, r₁, hb, rfl⟩⟩
    · exact .inl ⟨hne, by simpa [hne] using hb⟩
    · exact .inr ⟨m, 1, r₁, by simp, hb, hcount r₁⟩

/-- Once its variable is set, a loop that counts up in its body can be made a counting loop, which
takes no more steps. -/
theorem takes_forUntil_of_doUntil {var : Reg} (hvar : var ≠ ip) {init : Expr} {cond : Cond}
    {body : List Stmt} {r r' : Registers} {n : Nat} {flow : Flow}
    (ht : Takes ((Stmt.doUntil cond (body ++ [.update .add var (.lit 1)])).exec ip)
      (r.set var (init.eval r)) n flow r') :
    ∃ m, m ≤ n ∧ Takes ((Stmt.forUntil var init cond body).exec ip) r m flow r' := by
  obtain ⟨n, rfl, hr⟩ := takes_doUntil_iff.mp ht
  obtain ⟨m, hm, hr'⟩ : ∃ m, m ≤ n ∧ Rounds (countedBody ip var body) cond.holds
      (r.set var (init.eval r)) m flow r' := by
    refine hr.imp (fun n m ↦ m ≤ n) (fun h h' ↦ by omega) fun hb ↦ ?_
    obtain ⟨m, rfl, hb'⟩ := (takes_countUp_iff hvar).mp hb
    exact ⟨m, Nat.le_add_right m _, hb'⟩
  exact ⟨m + 1, Nat.succ_le_succ hm, takes_forUntil_iff.mpr ⟨m, rfl, hr'⟩⟩

theorem takes_doUntil_of_forUntil {var : Reg} (hvar : var ≠ ip) {init : Expr} {cond : Cond}
    {body : List Stmt} {r r' : Registers} {m : Nat} {flow : Flow}
    (ht : Takes ((Stmt.forUntil var init cond body).exec ip) r m flow r') :
    ∃ n, Takes ((Stmt.doUntil cond (body ++ [.update .add var (.lit 1)])).exec ip)
      (r.set var (init.eval r)) n flow r' := by
  obtain ⟨m, -, hr⟩ := takes_forUntil_iff.mp ht
  obtain ⟨n, -, hr'⟩ := hr.imp (fun _ _ ↦ True) (fun _ _ ↦ trivial) fun hb ↦
    ⟨_, trivial, (takes_countUp_iff hvar).mpr ⟨_, rfl, hb⟩⟩
  exact ⟨n + 1, takes_doUntil_iff.mpr ⟨n, rfl, hr'⟩⟩

theorem sound_forLoop (h : forLoopAt ip code line (code.drop line) = some f) :
    f.Sound ip code := by
  have hfits : f.Fits code := fits_of_foldAt? (p := forLoop) h
  obtain ⟨var, init, cond, body, hvar, hassign, hloop, -, hnone, rfl⟩ := forLoop_shape h
  have keeps {t : Nat} (ht : t ∈ Code.targets code) :
      Fold.Keeps ⟨line, 1, .forUntil var init cond body⟩ t := by
    have hne : t ≠ line + 1 := fun heq ↦ hnone (heq ▸ ht)
    simp only [Fold.Keeps]
    omega
  -- the counting loop makes this assignment itself
  have hfirst (r : Registers) : Takes ((Stmt.assign var init).execAt ip line) r 1 (some (line + 1))
      (r.set var (init.eval r)) :=
    (takes_execAt_iff (by simpa [Stmt.writesPointer] using hvar)).mpr
      ⟨.next, rfl, Stmt.takes_of_tick fun left ↦ by rw [Stmt.exec]⟩
  have looped {r r' : Registers} {n : Nat} {flow : Flow}
      (ht : Takes ((Stmt.forUntil var init cond body).exec ip) r n flow r') :
      ∃ m, Takes ((Stmt.doUntil cond (body ++ [.update .add var (.lit 1)])).execAt ip (line + 1))
        (r.set var (init.eval r)) m (flow.next? (line + 2)) r' := by
    obtain ⟨m, ht'⟩ := takes_doUntil_of_forUntil hvar ht
    exact ⟨m, (takes_execAt_iff rfl).mpr ⟨flow, rfl, ht'⟩⟩
  refine ⟨hfits, ?_, rfl, ?_, ?_, ?_, ?_, ?_⟩
  · intro l s hs _ _ t ht
    exact keeps (Code.mem_targets_iff.mpr ⟨l, s, hs, ht⟩)
  · intro t ht
    rw [Stmt.targets] at ht
    refine keeps (Code.mem_targets_iff.mpr ⟨line + 1, _, hloop, ?_⟩)
    rw [Stmt.targets, Code.targets_eq_flatMap, List.flatMap_append, ← Code.targets_eq_flatMap]
    exact List.mem_append_left _ ht
  · intro flow hflow
    rw [Stmt.flows] at hflow
    refine Code.mem_flows_of_getElem? hloop ?_
    rw [Stmt.flows, Code.flows_eq_flatMap, List.flatMap_append, ← Code.flows_eq_flatMap]
    exact List.mem_append_left _ hflow
  · intro r n r' he
    rcases he.cases_of_some hassign with ht | ⟨k, n₁, next, r₁, rfl, ht, hgo⟩
    · cases ((hfirst r).unique ht).2.1
    obtain ⟨rfl, hnext, rfl⟩ := (hfirst r).unique ht
    cases hnext
    rcases hgo.cases_of_some hloop with ht | ⟨k, n₂, next, r₁, rfl, ht, hend⟩
    · obtain ⟨m, -, ht'⟩ :=
        takes_forUntil_of_doUntil hvar ((takes_execAt_none_iff rfl).mp ht)
      exact .inl ⟨m, ht'⟩
    · obtain ⟨flow, hflow, ht⟩ := (takes_execAt_iff rfl).mp ht
      obtain ⟨m, hm, ht'⟩ := takes_forUntil_of_doUntil hvar ht
      exact .inr ⟨1 + k, n₂, m, flow, next, r₁, by omega, by omega, ht', hflow.symm, hend⟩
  · intro r m r' ht
    obtain ⟨m', hstop⟩ := looped ht
    exact ⟨1 + m', .step hassign (hfirst r) (.stop hloop hstop)⟩
  · intro r m r' flow next ht hnext
    obtain ⟨m', hgo⟩ := looped ht
    rw [show flow.next? (line + 2) = some next from hnext] at hgo
    exact ⟨1 + m', .step hassign (hfirst r) (.single hloop hgo)⟩

theorem sound_doWhile (h : doWhileAt ip code line (code.drop line) = some f) :
    f.Sound ip code := by
  have hfits : f.Fits code := fits_of_foldAt? (p := doWhile) h
  obtain ⟨cond, head, body, hlt, hbody, rfl, hback, hquiet, hnone, rfl⟩ := doWhile_shape h
  have hafter : head + (head + body.length - head) + 1 = head + body.length + 1 := by omega
  refine ⟨hfits, ?_, rfl, ?_, ?_, ?_, ?_, ?_⟩
  · intro l s hs hk hne t ht
    simp only [Fold.Keeps] at hk hne ⊢
    have := hnone l s (by omega) hs t ht
    omega
  · intro t ht
    rw [Stmt.targets, Code.targets_eq_nil body hquiet] at ht
    cases ht
  · intro flow hflow
    rw [Stmt.flows, Code.flows_eq_flatMap, List.mem_flatMap] at hflow
    obtain ⟨s, hs, hflow⟩ := hflow
    obtain ⟨i, hi⟩ := List.mem_iff_getElem?.mp hs
    exact Code.mem_flows_of_getElem? (hbody i s hi) hflow
  · intro r n r' he
    rcases Code.ends_loop hbody hquiet hback he with ⟨m, hr⟩ | ⟨m, n₁, r₁, rfl, hr, hend⟩
    · exact .inl ⟨m + 1, takes_doUntil_iff.mpr ⟨m, rfl, hr⟩⟩
    · exact .inr ⟨m + 1, n₁, m + 1, .next, _, r₁, rfl, Nat.le_refl _,
        takes_doUntil_iff.mpr ⟨m, rfl, hr⟩, congrArg some hafter, hend⟩
  · intro r m r' ht
    obtain ⟨m, rfl, hr⟩ := takes_doUntil_iff.mp ht
    exact ⟨m, Code.ends_of_loop hbody hback hr rfl⟩
  · intro r m r' flow next ht hnext
    cases flow with
    | next =>
      obtain ⟨m, rfl, hr⟩ := takes_doUntil_iff.mp ht
      cases hnext
      refine ⟨m + 1, ?_⟩
      simp only [hafter]
      exact Code.reaches_loop hbody hback hr rfl
    | goto t =>
      -- the body has no targets
      have hmem := Stmt.mem_targets_of_takes _ ht
      rw [Stmt.targets, Code.targets_eq_nil body hquiet] at hmem
      cases hmem
    | halt => cases hnext

/-- **A fold that is no fusion is sound.** -/
theorem sound_of_find? {p : Pattern} (hp : p ≠ ifElse) (h : p.find? ip code = some f) :
    f.Sound ip code := by
  obtain ⟨line, -, hf⟩ := exists_of_firstFrom h
  rw [Nat.zero_add] at hf
  cases p with
  | ifElse => exact absurd rfl hp
  | singleIf => exact sound_singleIf hf
  | forLoop => exact sound_forLoop hf
  | doWhile => exact sound_doWhile hf

/-- A fusion takes away a skip, so there is one to take away. -/
theorem exists_skip_of_find? (h : ifElse.find? ip code = some f) :
    ∃ s ∈ code, s.writesPointer ip = true := by
  obtain ⟨line, -, hf⟩ := exists_of_firstFrom h
  rw [Nat.zero_add] at hf
  simp only [foldAt?, ifElseAt] at hf
  split at hf
  · next cond dest pointer flag target rest hdrop =>
    split at hf
    · next hguard =>
      simp only [Bool.and_eq_true, beq_iff_eq] at hguard
      refine ⟨_, List.mem_of_getElem? (getElem?_of_drop (getElem?_of_drop hdrop).2).1, ?_⟩
      simpa [Stmt.writesPointer] using hguard.1.1
    · cases hf
  · cases hf

end Pattern

/-! ## Folding to the end -/

namespace Code

variable {ip : Reg}

theorem sound_of_step? {code code' : Code} {p : Pattern}
    (hplain : ∀ s ∈ code, s.writesPointer ip = false)
    (h : Recover.step? ip code = some (p, code')) :
    ∃ f : Fold, f.Sound ip code ∧ code' = f.apply code := by
  obtain ⟨f, hf, rfl⟩ := Option.map_eq_some_iff.mp (Recover.foldFirst?_of_step? h)
  have hp : p ≠ .ifElse := by
    rintro rfl
    obtain ⟨s, hs, hw⟩ := Pattern.exists_skip_of_find? hf
    rw [hplain s hs] at hw
    cases hw
  exact ⟨f, Pattern.sound_of_find? hp hf, rfl⟩

/-- Recovered code ends as the code did, and in no more steps unless something in it can stop the
run. -/
theorem ends_recover (bounded : Prop) (code : Code)
    (hplain : ∀ s ∈ code, s.writesPointer ip = false)
    (hb : bounded → .halt ∉ Code.flows code) {r r' : Registers} {n : Nat}
    (he : Ends ip code 0 r n r') :
    ∃ m, Within bounded n m ∧ Ends ip (Code.recover ip code) 0 r m r' := by
  cases h : Recover.step? ip code with
  | none =>
    rw [recover_of_none h]
    exact ⟨n, fun _ ↦ Nat.le_refl n, he⟩
  | some pc =>
    obtain ⟨p, code'⟩ := pc
    have hlt := Recover.length_lt_of_step? h
    obtain ⟨f, hf, hcode'⟩ := sound_of_step? hplain h
    obtain ⟨m, hm, he'⟩ := hf.ends_apply hplain hb he
    rw [← hcode'] at he'
    -- a fold makes no new ways to stop, so the bound holds for the folds that follow
    have hb' : bounded → .halt ∉ Code.flows code' := by
      intro hbd
      rw [hcode']
      exact Fold.halt_not_mem_flows_apply (fun h ↦ hb hbd (hf.inside _ h)) (hb hbd)
    obtain ⟨m', hm', he''⟩ := ends_recover bounded code' (hcode' ▸ hf.plain_apply hplain) hb' he'
    rw [recover_of_some h]
    exact ⟨m', fun hbd ↦ Nat.le_trans (hm' hbd) (hm hbd), he''⟩
termination_by code.length

theorem ends_of_recover (code : Code) (hplain : ∀ s ∈ code, s.writesPointer ip = false)
    {r r' : Registers} {n : Nat} (he : Ends ip (Code.recover ip code) 0 r n r') :
    ∃ m, Ends ip code 0 r m r' := by
  cases h : Recover.step? ip code with
  | none =>
    rw [recover_of_none h] at he
    exact ⟨n, he⟩
  | some pc =>
    obtain ⟨p, code'⟩ := pc
    have hlt := Recover.length_lt_of_step? h
    obtain ⟨f, hf, hcode'⟩ := sound_of_step? hplain h
    rw [recover_of_some h] at he
    obtain ⟨m, he'⟩ := ends_of_recover code' (hcode' ▸ hf.plain_apply hplain) he
    rw [hcode'] at he'
    exact hf.ends_of_apply hplain he'
termination_by code.length

/-- **Recovering structure keeps the meaning of code without skips.** From every register file the
code halts, given enough steps, exactly when the recovered code does, and with the same registers.
So two runs under step limits report the same registers if both halt; and unless something in the
code stops the run, recovered code halts under every limit under which the code does. -/
theorem haltsWith_recover_iff (ip : Reg) (code : Code)
    (hplain : ∀ s ∈ code, s.writesPointer ip = false) (r : Registers) :
    (∀ r', HaltsWith ip code r r' ↔ HaltsWith ip (Code.recover ip code) r r') ∧
    (∀ limit limit' e e', Code.run ip code limit r = .ok e →
      Code.run ip (Code.recover ip code) limit' r = .ok e' → e.registers = e'.registers) ∧
    (.halt ∉ Code.flows code → ∀ limit e, Code.run ip code limit r = .ok e →
      ∃ steps, steps ≤ e.steps ∧
        Code.run ip (Code.recover ip code) limit r = .ok ⟨e.registers, steps⟩) := by
  refine ⟨fun r' ↦ ?_, ?_, ?_⟩
  · rw [haltsWith_iff, haltsWith_iff]
    constructor
    · rintro ⟨n, he⟩
      obtain ⟨m, -, he'⟩ := ends_recover False code hplain False.elim he
      exact ⟨m, he'⟩
    · rintro ⟨n, he⟩
      exact ends_of_recover code hplain he
  · intro limit limit' e e' hrun hrun'
    obtain ⟨-, he⟩ := run_eq_ok_iff.mp hrun
    obtain ⟨-, he'⟩ := run_eq_ok_iff.mp hrun'
    obtain ⟨n, he''⟩ := ends_of_recover code hplain he'
    exact (he.unique he'').2
  · intro hhalt limit e hrun
    obtain ⟨hle, he⟩ := run_eq_ok_iff.mp hrun
    obtain ⟨m, hm, he'⟩ := ends_recover True code hplain (fun _ ↦ hhalt) he
    have hm := hm trivial
    exact ⟨m, hm, run_eq_ok_iff.mpr ⟨Nat.le_trans hm hle, he'⟩⟩

/-- Counts a register up to three in a loop over lines, and stops in the loop if another register
gets to be as large. -/
def countToThree : Code :=
  [.assign 1 (.lit 0), .branch ⟨.gt, .reg 1, .reg 2⟩ 2 3, .halt, .update .add 1 (.lit 1),
    .branch ⟨.gt, .reg 1, .lit 2⟩ 5 1]

theorem haltsWith_recover_countToThree :
    HaltsWith 5 (Code.recover 5 countToThree) ⟨#v[0, 0, 7, 0, 0, 0]⟩ ⟨#v[0, 3, 7, 0, 0, 0]⟩ :=
  ((haltsWith_recover_iff 5 countToThree (by decide) ⟨#v[0, 0, 7, 0, 0, 0]⟩).1 _).mp
    ⟨20, 10, by rfl⟩

end Code

end Unjump
