import Unjump.Proofs.Condensing
import Unjump.Proofs.Fusion

/-!
# What is left of the lines when places are fused

One fusion after the other turns places into branches. `Code.FusedTo` describes what they come to
together: where each line has gone, and which lines control can still come to. Of a place that was
fused only the first line is left of the three. Every other line has its statement where it went.

## Skips that stay

A skip that is in no place, or in one that is entered from elsewhere, stays. It goes on to the next
line or to the one behind that, so these two must stay where they are in relation to it. They do
unless a fusion is made directly behind the skip. `Recover.Clear` asks this of every fold of a
recovery.
-/

namespace Unjump

/-! ## Renumbering twice -/

mutual

theorem Stmt.mapTargets_mapTargets (f g : Nat → Nat) (s : Stmt) :
    (s.mapTargets f).mapTargets g = s.mapTargets fun t ↦ g (f t) := by
  cases s with
  | ifThen cond body =>
    rw [Stmt.mapTargets, Stmt.mapTargets, Stmt.mapTargets, Code.mapTargets_mapTargets f g body]
  | doUntil cond body =>
    rw [Stmt.mapTargets, Stmt.mapTargets, Stmt.mapTargets, Code.mapTargets_mapTargets f g body]
  | forUntil var init cond body =>
    rw [Stmt.mapTargets, Stmt.mapTargets, Stmt.mapTargets, Code.mapTargets_mapTargets f g body]
  | _ => rfl

theorem Code.mapTargets_mapTargets (f g : Nat → Nat) (code : List Stmt) :
    Code.mapTargets g (Code.mapTargets f code) = Code.mapTargets (fun t ↦ g (f t)) code := by
  cases code with
  | nil => rfl
  | cons s rest =>
    rw [Code.mapTargets, Code.mapTargets, Code.mapTargets, Stmt.mapTargets_mapTargets f g s,
      Code.mapTargets_mapTargets f g rest]

end

theorem Stmt.dest?_of_writesPointer {ip : Reg} {s : Stmt} (h : s.writesPointer ip = true) :
    s.dest? = some ip := by
  cases s with
  | assign dest value => exact congrArg some (beq_iff_eq.mp h)
  | update op dest value => exact congrArg some (beq_iff_eq.mp h)
  | _ => cases h

/-! ## Folds behind skips -/

/-- The line directly before the fold is an assignment to the pointer. -/
def Fold.BehindSkip (f : Fold) (ip : Reg) (code : Code) : Prop :=
  ∃ line s, line + 1 = f.start ∧ code[line]? = some s ∧ s.writesPointer ip = true

/-- No fold of the recovery is made directly behind an assignment to the pointer. -/
inductive Recover.Clear (ip : Reg) : Code → Prop
  | done {code : Code} (h : step? ip code = none) : Clear ip code
  | fold {code : Code} {p : Pattern} {f : Fold} (h : step? ip code = some (p, f.apply code))
    (hf : p.find? ip code = some f) (hb : ¬f.BehindSkip ip code) (hc : Clear ip (f.apply code)) :
    Clear ip code

/-! ## Fused code -/

namespace Code

/-- How `fused` comes from `code` by fusions: line `m` has gone to line `τ m`, and `E` are the lines
that control can come to. -/
structure FusedTo (ip : Reg) (code fused : Code) (τ : Nat → Nat) (E : Nat → Prop) : Prop where
  start : E 0 ∧ τ 0 = 0
  targets : ∀ t ∈ Code.targets code, E t ∧ τ t ∈ Code.targets fused
  /-- A line has its statement, or it is the first line of a place that was fused. -/
  lines : ∀ m, E m →
    (fused[τ m]? = (code[m]?).map (Stmt.mapTargets τ) ∧ E (m + 1) ∧ τ (m + 1) = τ m + 1) ∨
    ∃ cond flag target, SkipAt ip code m cond flag target ∧
      fused[τ m]? = some (.branch cond (τ m + 1) (τ target)) ∧
      E (m + 3) ∧ τ (m + 3) = τ m + 1 ∧ ¬E (m + 1)
  /-- Skips that control can come to land where they landed. -/
  skips : ∀ m s, E m → code[m]? = some s → s.writesPointer ip = true →
    E (m + 2) ∧ τ (m + 2) = τ m + 2

/-- A fusion loses no target: the one of its jump is the new branch's. -/
theorem SkipAt.renumber_mem_targets {ip : Reg} {code : Code} {line target : Nat} {cond : Cond}
    {flag : Reg} (h : SkipAt ip code line cond flag target) {t : Nat}
    (ht : t ∈ Code.targets code) :
    (Fold.fusion line cond target).renumber t ∈
      Code.targets ((Fold.fusion line cond target).apply code) := by
  have hfits := h.tidy.fits
  obtain ⟨l, s, hs, ht⟩ := Code.mem_targets_iff.mp ht
  by_cases hk : (Fold.fusion line cond target).Keeps l
  · refine Fold.renumber_mem_targets_of_keeps hfits hk (fun heq ↦ ?_) hs ht
    rw [show l = line from heq, h.compare] at hs
    cases hs
    cases ht
  · have hl : l = line + 1 ∨ l = line + 2 := by
      simp only [Fold.Keeps, Fold.fusion] at hk
      omega
    rcases hl with rfl | rfl
    · rw [h.skip] at hs
      cases hs
      cases ht
    · rw [h.jump] at hs
      cases hs
      rw [Stmt.targets, List.mem_singleton] at ht
      rw [ht]
      exact Fold.renumber_mem_targets_of_stmt hfits (List.mem_cons_of_mem _ List.mem_cons_self)

namespace FusedTo

variable {ip : Reg} {code fused : Code} {τ : Nat → Nat} {E : Nat → Prop} {m line target : Nat}
  {cond : Cond} {flag : Reg}

theorem refl (ip : Reg) (code : Code) : FusedTo ip code code id fun _ ↦ True where
  start := ⟨trivial, rfl⟩
  targets t ht := ⟨trivial, ht⟩
  lines m _ := by
    refine .inl ⟨?_, trivial, rfl⟩
    rw [id_eq]
    cases code[m]? with
    | none => rfl
    | some s => rw [Option.map_some, Stmt.mapTargets_eq_self (g := id) s fun _ _ ↦ rfl]
  skips m s _ _ _ := ⟨trivial, rfl⟩

/-- What stores into a register, in fused code, stands where it stood. -/
theorem of_dest? (h : FusedTo ip code fused τ E) (hm : E m) {s : Stmt} (hd : s.dest? ≠ none)
    (hs : fused[τ m]? = some s) : code[m]? = some s ∧ E (m + 1) ∧ τ (m + 1) = τ m + 1 := by
  rcases h.lines m hm with ⟨hget, hnext⟩ | ⟨cond, flag, target, -, hget, -⟩
  · rw [hget] at hs
    obtain ⟨s', hs', heq⟩ := Option.map_eq_some_iff.mp hs
    rw [(Stmt.mapTargets_eq_iff_of_dest? hd).mp heq] at hs'
    exact ⟨hs', hnext⟩
  · rw [hget] at hs
    cases hs
    exact absurd rfl hd

/-- A place of fused code is what a place of the code has become. -/
theorem skipAt (h : FusedTo ip code fused τ E) (hm : E m)
    (hp : SkipAt ip fused (τ m) cond flag target) :
    ∃ t, target = τ t ∧ SkipAt ip code m cond flag t ∧ E (m + 3) ∧ τ (m + 3) = τ m + 3 ∧
      τ (m + 1) = τ m + 1 := by
  obtain ⟨hcompare, hm₁, hτ₁⟩ := h.of_dest? hm (s := .compare cond flag) nofun hp.compare
  have hskip₁ := hp.skip
  rw [← hτ₁] at hskip₁
  obtain ⟨hskip, hm₂, hτ₂⟩ := h.of_dest? hm₁ (s := .update .add ip (.reg flag)) nofun hskip₁
  have hτ₂ : τ (m + 2) = τ m + 2 := hτ₂.trans (by rw [hτ₁])
  have hjump₂ := hp.jump
  rw [← hτ₂] at hjump₂
  rcases h.lines (m + 2) hm₂ with ⟨hget, hm₃, hτ₃⟩ | ⟨_, _, _, -, hget, -⟩
  · rw [hget] at hjump₂
    obtain ⟨s, hs, heq⟩ := Option.map_eq_some_iff.mp hjump₂
    obtain ⟨t, rfl, rfl⟩ := Stmt.mapTargets_eq_goto heq
    refine ⟨t, rfl, ⟨hcompare, hskip, hs, fun t' ht' ↦ ?_⟩, hm₃, ?_, hτ₁⟩
    · obtain ⟨h₁, h₂⟩ := hp.sheltered _ (h.targets t' ht').2
      constructor
      · rintro rfl
        exact h₁ hτ₁
      · rintro rfl
        exact h₂ hτ₂
    · exact hτ₃.trans (by rw [hτ₂])
  · rw [hget] at hjump₂
    cases hjump₂

/-- **One more fusion**, unless it is made directly behind a skip. -/
theorem apply (h : FusedTo ip code fused τ E) (hp : SkipAt ip fused line cond flag target)
    (hb : ¬(Fold.fusion line cond target).BehindSkip ip fused) :
    FusedTo ip code ((Fold.fusion line cond target).apply fused)
      (fun m ↦ (Fold.fusion line cond target).renumber (τ m))
      fun m ↦ E m ∧ (Fold.fusion line cond target).Keeps (τ m) := by
  have hfits := hp.tidy.fits
  have hren : (Fold.fusion line cond target).renumber line = line :=
    Fold.renumber_of_le (Nat.le_refl _)
  have hafter : (Fold.fusion line cond target).renumber (line + 3) = line + 1 :=
    Fold.renumber_after _
  refine ⟨⟨⟨h.start.1, ?_⟩, ?_⟩, fun t ht ↦ ⟨⟨(h.targets t ht).1, ?_⟩, ?_⟩, ?_, ?_⟩
  · rw [h.start.2]
    exact Fold.keeps_zero _
  · rw [h.start.2, Fold.renumber_of_le (Nat.zero_le _)]
  · exact hp.keeps_target (h.targets t ht).2
  · exact hp.renumber_mem_targets (h.targets t ht).2
  · rintro m ⟨hm, hk⟩
    by_cases hline : τ m = line
    -- the place that is fused
    · subst hline
      obtain ⟨t, rfl, hplace, hm₃, hτ₃, hτ₁⟩ := h.skipAt hm hp
      refine .inr ⟨cond, flag, t, hplace, ?_, ⟨hm₃, ?_⟩, ?_, ?_⟩
      · rw [hren, hp.getElem?_apply, hafter]
      · rw [hτ₃]
        exact Fold.keeps_after _
      · rw [hτ₃, hafter, hren]
      · rintro ⟨-, hk₁⟩
        rw [hτ₁] at hk₁
        simp only [Fold.Keeps, Fold.fusion] at hk₁
        omega
    · have hget := Fold.getElem?_apply hfits hk hline
      have hsucc := hk.renumber_succ hline
      rcases h.lines m hm with ⟨hstmt, hm₁, hτ₁⟩ | ⟨cond', flag', t, hplace, hbranch, hm₃, hτ₃, hno⟩
      · refine .inl ⟨?_, ⟨hm₁, ?_⟩, ?_⟩
        · rw [hget, hstmt, Option.map_map]
          congr 1
          funext s
          exact Stmt.mapTargets_mapTargets _ _ s
        · rw [hτ₁]
          exact hk.succ hline
        · rw [hτ₁, hsucc]
      · refine .inr ⟨cond', flag', t, hplace, ?_, ⟨hm₃, ?_⟩, ?_, fun hm₁ ↦ hno hm₁.1⟩
        · rw [hget, hbranch, Option.map_some, Stmt.mapTargets, hsucc]
        · rw [hτ₃]
          exact hk.succ hline
        · rw [hτ₃, hsucc]
  · rintro m s ⟨hm, hk⟩ hs hw
    obtain ⟨hm₂, hτ₂⟩ := h.skips m s hm hs hw
    -- the skip is in fused code too, so it is neither in the place nor directly before it
    have hstmt : fused[τ m]? = some s := by
      rcases h.lines m hm with ⟨hget, -⟩ | ⟨cond', flag', t, hplace, -⟩
      · rw [hget, hs, Option.map_some, Option.some.injEq]
        refine (Stmt.mapTargets_eq_iff_of_dest? ?_).mpr rfl
        rw [Stmt.dest?_of_writesPointer hw]
        exact Option.some_ne_none ip
      · rw [hplace.compare] at hs
        cases hs
        cases hw
    have hline : τ m ≠ line := by
      rintro rfl
      rw [hp.compare] at hstmt
      cases hstmt
      cases hw
    have hbefore : τ m + 1 ≠ line := fun heq ↦ hb ⟨τ m, s, heq, hstmt, hw⟩
    have hside : τ m + 2 ≤ line ∨ line + 2 < τ m := by
      simp only [Fold.Keeps, Fold.fusion] at hk
      omega
    have hkeeps := Fold.keeps_add (f := .fusion line cond target) hside (Nat.le_refl 2)
    rw [hτ₂]
    exact ⟨⟨hm₂, hkeeps.1⟩, hkeeps.2⟩

end FusedTo

/-- **What all the fusions come to**, if none of them is made directly behind a skip. -/
theorem exists_fusedTo {ip : Reg} {code : Code} (hclear : Recover.Clear ip code) :
    ∃ τ E, FusedTo ip code (Pattern.ifElse.foldAll ip code) τ E ∧
      Recover.Clear ip (Pattern.ifElse.foldAll ip code) := by
  -- the fusions that are still to be made, after some that have been
  have further {fused : Code} (hc : Recover.Clear ip fused) : ∀ {τ E}, FusedTo ip code fused τ E →
      ∃ τ E, FusedTo ip code (Pattern.ifElse.foldAll ip fused) τ E ∧
        Recover.Clear ip (Pattern.ifElse.foldAll ip fused) := by
    induction hc with
    | done hstep =>
      intro τ E h
      rw [Pattern.foldAll_of_none (Recover.step?_eq_none_iff.mp hstep .ifElse)]
      exact ⟨τ, E, h, .done hstep⟩
    | @fold fused p f hstep hf hb hc ih =>
      intro τ E h
      cases hfold : Pattern.ifElse.foldFirst? ip fused with
      | none =>
        rw [Pattern.foldAll_of_none hfold]
        exact ⟨τ, E, h, .fold hstep hf hb hc⟩
      | some fused' =>
        have hfirst := Recover.step?_of_foldFirst?_ifElse hfold
        rw [hstep] at hfirst
        cases hfirst
        obtain ⟨line, cond, flag, target, hp, rfl⟩ := exists_skipAt_of_find? hf
        rw [Pattern.foldAll_of_some hfold]
        exact ih (h.apply hp hb)
  exact further hclear (.refl ip code)

end Code

end Unjump
