import Unjump.Proofs.Lifting
import Unjump.Proofs.SkipSites

/-!
# Fusing comparisons with skips

A comparison that stores a flag, a skip by that flag and a jump become one branch on the condition.
The branch goes where control went before, but it stores no flag, so from there on the register file
is another one. This does no harm as long as the flag is not live at the two lines where control
comes out.

## One fusion

The two runs are kept in step with registers that agree, pointer and flag left out; on the flag they
agree wherever it is live. A place that is still to be fused is passed in one move, comparison and
skip together, since between the two the skip depends on a flag that was just stored. No target is
there, so control does not enter in between.

## All of them

Fusing goes on as long as there is something to fuse. What has to be known of code for one fusion is
known of the code after it (`Code.Fusible.apply`), and a flag that was not live is not live then
(`Code.live_of_apply`), although the branch no longer stores the flag it came from. So the whole is
a sequence of single fusions, each started on the same register file.
-/

namespace Unjump

namespace Code

/-- Flat code whose skips can all be fused: each follows a comparison that stores its flag and is
followed by a jump, and the pointer is used for nothing else. -/
structure Fusible (ip : Reg) (code : Code) : Prop where
  flat : ∀ s ∈ code, s.isStructured = false
  short : code.length ≤ 2 ^ 63 - 1
  guarded : Guarded ip code
  pointerFree : ∀ s ∈ code, ∀ e ∈ s.exprs, e.reads ip = false
  compares : ∀ {line cond flag target}, SkipAt ip code line cond flag target →
    cond.op = .gt ∨ cond.op = .eq

/-! ## Places lie apart -/

namespace SkipAt

variable {ip : Reg} {code : Code} {line line' target target' : Nat} {cond cond' : Cond}
  {flag flag' : Reg}

theorem disjoint (h : SkipAt ip code line cond flag target)
    (h' : SkipAt ip code line' cond' flag' target') (hne : line' ≠ line) :
    line' + 3 ≤ line ∨ line + 2 < line' := by
  have ne {s s' : Stmt} {l l' : Nat} (hs : code[l]? = some s) (hs' : code[l']? = some s')
      (hss : s ≠ s') : l ≠ l' := by
    rintro rfl
    rw [hs] at hs'
    exact hss (Option.some.inj hs')
  have h₁ := ne h'.compare h.skip nofun
  have h₂ := ne h'.compare h.jump nofun
  have h₃ := ne h'.skip h.compare nofun
  have h₄ := ne h'.jump h.compare nofun
  omega

theorem keeps_target (h : SkipAt ip code line cond flag target) {t : Nat}
    (ht : t ∈ Code.targets code) : (Fold.fusion line cond target).Keeps t := by
  have hne := h.sheltered t ht
  simp only [Fold.Keeps, Fold.fusion]
  omega

theorem target_mem (h : SkipAt ip code line cond flag target) : target ∈ Code.targets code :=
  Code.mem_targets_iff.mpr ⟨line + 2, _, h.jump, by simp [Stmt.targets]⟩

theorem getElem?_apply (h : SkipAt ip code line cond flag target) :
    ((Fold.fusion line cond target).apply code)[line]? =
      some (.branch cond ((Fold.fusion line cond target).renumber (line + 3))
        ((Fold.fusion line cond target).renumber target)) :=
  Fold.getElem?_apply_start h.tidy.fits

/-- The targets of the code after a fusion are those of the code, and the line behind the place. -/
theorem exists_of_mem_targets (h : SkipAt ip code line cond flag target) {t' : Nat}
    (ht' : t' ∈ Code.targets ((Fold.fusion line cond target).apply code)) :
    ∃ t, t' = (Fold.fusion line cond target).renumber t ∧
      (Fold.fusion line cond target).Keeps t ∧ (t = line + 3 ∨ t ∈ Code.targets code) := by
  obtain ⟨t, rfl, ht⟩ := Fold.exists_of_mem_targets_apply ht'
  have hcases : t = line + 3 ∨ t ∈ Code.targets code := by
    rcases ht with ht | ht
    · simp only [Fold.fusion, Stmt.targets, List.mem_cons, List.not_mem_nil, or_false] at ht
      rcases ht with ht | rfl
      · exact .inl ht
      · exact .inr h.target_mem
    · exact .inr ht
  refine ⟨t, rfl, ?_, hcases⟩
  rcases hcases with rfl | ht
  · exact Fold.keeps_after _
  · exact h.keeps_target ht

/-- The other places are left as they were. -/
theorem apply (h : SkipAt ip code line cond flag target)
    (h' : SkipAt ip code line' cond' flag' target') (hne : line' ≠ line) :
    SkipAt ip ((Fold.fusion line cond target).apply code)
      ((Fold.fusion line cond target).renumber line') cond' flag'
      ((Fold.fusion line cond target).renumber target') := by
  have hapart := h.disjoint h' hne
  have keeps {i : Nat} (hi : i ≤ 3) := Fold.keeps_add (f := .fusion line cond target) hapart hi
  have hget {i : Nat} (hi : i ≤ 2) := Fold.getElem?_apply h.tidy.fits (keeps (i := i) (by omega)).1
    (by simp only [Fold.fusion]; omega)
  refine ⟨?_, ?_, ?_, ?_⟩
  · have hline := hget (i := 0) (by omega)
    rwa [Nat.add_zero, h'.compare] at hline
  · have hline := hget (i := 1) (by omega)
    rwa [(keeps (by omega)).2, h'.skip] at hline
  · have hline := hget (i := 2) (by omega)
    rwa [(keeps (by omega)).2, h'.jump] at hline
  · intro t' ht'
    obtain ⟨t, rfl, hk, ht⟩ := h.exists_of_mem_targets ht'
    have hout : t ≠ line' + 1 ∧ t ≠ line' + 2 := by
      rcases ht with rfl | ht
      · omega
      · exact h'.sheltered t ht
    obtain ⟨hk₁, hren₁⟩ := keeps (i := 1) (by omega)
    obtain ⟨hk₂, hren₂⟩ := keeps (i := 2) (by omega)
    rw [← hren₁, ← hren₂]
    exact ⟨fun heq ↦ hout.1 (hk.renumber_inj hk₁ heq), fun heq ↦ hout.2 (hk.renumber_inj hk₂ heq)⟩

end SkipAt

/-! ## What stays when a place is fused -/

namespace Fusible

variable {ip : Reg} {code : Code} {line target : Nat} {cond : Cond} {flag : Reg}

theorem flag_ne (hf : Fusible ip code) (h : SkipAt ip code line cond flag target) : flag ≠ ip := by
  have hreads := hf.pointerFree _ (List.mem_of_getElem? h.skip) (.reg flag) (by simp [Stmt.exprs])
  rintro rfl
  simp [Expr.reads] at hreads

/-- **Code with one place fused is as code has to be for the next fusion.** -/
theorem apply (hf : Fusible ip code) (h : SkipAt ip code line cond flag target) :
    Fusible ip ((Fold.fusion line cond target).apply code) where
  flat := by
    intro s hs
    obtain ⟨s', rfl, rfl | hs'⟩ := Fold.exists_of_mem_apply hs
    · rfl
    · rw [Stmt.isStructured_mapTargets, hf.flat s' hs']
  short := by
    have hlen := Fold.length_apply h.tidy.fits
    have hshort := hf.short
    omega
  guarded := by
    intro l' s' hl' hw
    have hne : l' ≠ (Fold.fusion line cond target).start := by
      intro heq
      rw [heq, Fold.getElem?_apply_start h.tidy.fits] at hl'
      cases hl'
      cases hw
    obtain ⟨l, hk, hl, rfl⟩ := Fold.exists_renumber_eq hne
    rw [Fold.getElem?_apply h.tidy.fits hk hl] at hl'
    obtain ⟨s, hs, rfl⟩ := Option.map_eq_some_iff.mp hl'
    rw [Stmt.writesPointer_mapTargets] at hw
    obtain ⟨start, cond', flag', target', rfl, hs'⟩ := hf.guarded l s hs hw
    have hne' : start ≠ line := by
      rintro rfl
      simp only [Fold.Keeps, Fold.fusion] at hk
      omega
    exact ⟨_, cond', flag', _, (Fold.keeps_add (h.disjoint hs' hne') (by omega)).2,
      h.apply hs' hne'⟩
  pointerFree := by
    intro s hs
    obtain ⟨s', rfl, rfl | hs'⟩ := Fold.exists_of_mem_apply hs
    · have hcond := hf.pointerFree _ (List.mem_of_getElem? h.compare)
      exact hcond
    · rw [Stmt.exprs_mapTargets]
      exact hf.pointerFree s' hs'
  compares := by
    intro l' cond' flag' target' hs
    obtain ⟨l, target'', -, -, -, -, -, -, hs⟩ := h.tidy.skipAt_of_apply hs
    exact hf.compares hs

end Fusible

/-! ## Liveness -/

namespace SkipAt

variable {ip : Reg} {code : Code} {line target : Nat} {cond : Cond} {flag : Reg}

/-- A skip that is left has its lines around it. -/
theorem keeps_add_two (h : SkipAt ip code line cond flag target) (hg : Guarded ip code) {l : Nat}
    {s : Stmt} (hs : code[l]? = some s) (hw : s.writesPointer ip = true)
    (hk : (Fold.fusion line cond target).Keeps l) :
    (Fold.fusion line cond target).Keeps (l + 2) ∧
      (Fold.fusion line cond target).renumber (l + 2) =
        (Fold.fusion line cond target).renumber l + 2 := by
  obtain ⟨start, cond', flag', target', rfl, hs'⟩ := hg l s hs hw
  have hne : start ≠ line := by
    rintro rfl
    simp only [Fold.Keeps, Fold.fusion] at hk
    omega
  have keeps {i : Nat} (hi : i ≤ 3) :=
    Fold.keeps_add (f := .fusion line cond target) (h.disjoint hs' hne) hi
  obtain ⟨hk₃, hren₃⟩ := keeps (i := 3) (by omega)
  refine ⟨hk₃, ?_⟩
  rw [(keeps (i := 1) (by omega)).2]
  exact hren₃

/-- Away from a fusion, control flows as it did. -/
theorem exists_of_mem_successors (h : SkipAt ip code line cond flag target) (hg : Guarded ip code)
    {l next' : Nat} {s : Stmt} (hs : code[l]? = some s)
    (hk : (Fold.fusion line cond target).Keeps l) (hl : l ≠ line)
    (hnext : next' ∈ (s.mapTargets (Fold.fusion line cond target).renumber).successors ip
      ((Fold.fusion line cond target).renumber l)) :
    ∃ next ∈ s.successors ip l, (Fold.fusion line cond target).Keeps next ∧
      next' = (Fold.fusion line cond target).renumber next := by
  rw [Stmt.successors_mapTargets (hk.renumber_succ hl)
    fun hw ↦ (h.keeps_add_two hg hs hw hk).2] at hnext
  obtain ⟨next, hmem, rfl⟩ := List.mem_map.mp hnext
  refine ⟨next, hmem, ?_, rfl⟩
  rcases Stmt.cases_of_mem_successors hmem with rfl | ht | ⟨hw, rfl⟩
  · exact hk.succ hl
  · exact h.keeps_target (Code.mem_targets_iff.mpr ⟨l, s, hs, ht⟩)
  · exact (h.keeps_add_two hg hs hw hk).1

/-- What is live behind a place is live before it, unless the place stores it. -/
theorem live_of_after (h : SkipAt ip code line cond flag target) {outputs : List Reg} {i : Reg}
    (hi : i ≠ ip) (hflag : i ≠ flag)
    (hlive : Live ip outputs code i (line + 3) ∨ Live ip outputs code i target) :
    Live ip outputs code i line := by
  have hw : (Stmt.update .add ip (.reg flag)).writesPointer ip = true := by
    simp [Stmt.writesPointer]
  have hskip : Live ip outputs code i (line + 1) := by
    refine hlive.elim (fun hlive ↦ ?_) fun hlive ↦ ?_
    · refine .pass h.skip (by simpa [Stmt.dest?] using hi.symm) ?_ hlive
      simp [Stmt.successors, hw]
    · refine .pass h.skip (by simpa [Stmt.dest?] using hi.symm) ?_
        (.pass h.jump (by simp [Stmt.dest?]) ?_ hlive)
      · simp [Stmt.successors, hw]
      · simp [Stmt.successors, Stmt.writesPointer]
  refine .pass h.compare (by simpa [Stmt.dest?] using hflag.symm) ?_ hskip
  simp [Stmt.successors, Stmt.writesPointer]

/-- **A register that is live after a fusion was live before**, if this is not the flag of the
fusion while it was live behind it. -/
theorem live_of_apply (h : SkipAt ip code line cond flag target) (hg : Guarded ip code)
    {outputs : List Reg} {i : Reg} (hi : i ≠ ip)
    (hdead : i = flag →
      ¬Live ip outputs code i (line + 3) ∧ ¬Live ip outputs code i target)
    {l' : Nat} (hlive : Live ip outputs ((Fold.fusion line cond target).apply code) i l') :
    ∀ {l : Nat}, (Fold.fusion line cond target).Keeps l →
      l' = (Fold.fusion line cond target).renumber l → Live ip outputs code i l := by
  have hfits := h.tidy.fits
  have hren : (Fold.fusion line cond target).renumber line = line :=
    Fold.renumber_of_le (Nat.le_refl _)
  induction hlive with
  | read hs hr =>
    rintro l hk rfl
    by_cases hl : l = line
    · rw [hl, hren, h.getElem?_apply] at hs
      cases hs
      rw [hl]
      exact .read h.compare hr
    · rw [Fold.getElem?_apply hfits hk hl] at hs
      obtain ⟨s, hs', rfl⟩ := Option.map_eq_some_iff.mp hs
      exact .read hs' (by rwa [Stmt.reads_mapTargets] at hr)
  | pass hs hd hnext _ ih =>
    rintro l hk rfl
    by_cases hl : l = line
    · rw [hl, hren, h.getElem?_apply] at hs
      cases hs
      -- the branch goes on behind the place or at its target
      have hafter : Live ip outputs code i (line + 3) ∨ Live ip outputs code i target := by
        simp only [Stmt.successors, Stmt.writesPointer, Bool.false_eq_true, if_false,
          List.mem_cons, List.not_mem_nil, or_false] at hnext
        rcases hnext with hnext | hnext
        · exact .inl (ih (Fold.keeps_after _) hnext)
        · exact .inr (ih (h.keeps_target h.target_mem) hnext)
      rw [hl]
      refine h.live_of_after hi (fun heq ↦ ?_) hafter
      obtain ⟨h₁, h₂⟩ := hdead heq
      exact hafter.elim h₁ h₂
    · rw [Fold.getElem?_apply hfits hk hl] at hs
      obtain ⟨s, hs', rfl⟩ := Option.map_eq_some_iff.mp hs
      obtain ⟨next, hmem, hkn, rfl⟩ := h.exists_of_mem_successors hg hs' hk hl hnext
      exact .pass hs' (by rwa [Stmt.dest?_mapTargets] at hd) hmem (ih hkn rfl)
  | exit hs ho =>
    rintro l hk rfl
    by_cases hl : l = line
    · rw [hl, hren, h.getElem?_apply] at hs
      cases hs
    · rw [Fold.getElem?_apply hfits hk hl, Option.map_eq_none_iff] at hs
      exact .exit hs ho
  | halt hs ho =>
    rintro l hk rfl
    by_cases hl : l = line
    · rw [hl, hren, h.getElem?_apply] at hs
      cases hs
    · rw [Fold.getElem?_apply hfits hk hl] at hs
      obtain ⟨s, hs', heq⟩ := Option.map_eq_some_iff.mp hs
      have hhalt : s = .halt := by
        cases s <;> cases heq
        rfl
      exact .halt (hhalt ▸ hs') ho

end SkipAt

end Code

/-! ## What runs at a place -/

theorem Cond.eval_of_compares {cond : Cond} (h : cond.op = .gt ∨ cond.op = .eq) (r : Registers) :
    cond.eval r = if cond.holds r then 1 else 0 := by
  have hflag : ∃ b, cond.eval r = Opcode.flag b := by
    rw [Cond.eval, Cond.toExpr, Expr.eval]
    rcases h with h | h
    · rw [h]
      exact ⟨_, rfl⟩
    · rw [h]
      exact ⟨_, rfl⟩
  obtain ⟨b, hb⟩ := hflag
  rw [Cond.holds, hb]
  cases b <;> rfl

namespace Code

namespace SkipAt

variable {ip : Reg} {code : Code} {line target : Nat} {cond : Cond} {flag : Reg}

/-- Comparison and skip go on behind the jump if the condition holds, and to the jump if not. -/
theorem reaches (h : SkipAt ip code line cond flag target) (hop : cond.op = .gt ∨ cond.op = .eq)
    (hflag : flag ≠ ip) (hshort : line + 3 < 2 ^ 63) (r : Registers) :
    ∃ r₁, Reaches ip code line r 2 (if cond.holds r then line + 3 else line + 2) r₁ ∧
      ∀ i, i ≠ ip → r₁.get i = (r.set flag (cond.eval r)).get i := by
  have hcompare : Takes ((Stmt.compare cond flag).execAt ip line) r 1 (some (line + 1))
      (r.set flag (cond.eval r)) :=
    (takes_execAt_iff rfl).mpr ⟨.next, rfl, Stmt.takes_of_tick fun left ↦ by rw [Stmt.exec]⟩
  -- the pointer holds the line of the skip, and the flag was just stored
  generalize hq : (r.set flag (cond.eval r)).set ip (Int64.ofNat (line + 1)) = q
  have hptr : q.get ip = Int64.ofNat (line + 1) := by rw [← hq, Registers.get_set_self]
  have hval : q.get flag = if cond.holds r then 1 else 0 := by
    rw [← hq, Registers.get_set_of_ne _ hflag.symm, Registers.get_set_self,
      Cond.eval_of_compares hop]
  have hword (n : Nat) : Int64.ofNat n + 1 = Int64.ofNat (n + 1) := by
    rw [Int64.ofNat_add]
    rfl
  have hnext : (q.get ip + q.get flag + 1).line? =
      some (if cond.holds r then line + 3 else line + 2) := by
    rw [hptr, hval]
    by_cases hc : cond.holds r
    · rw [if_pos hc, if_pos hc, hword, hword]
      exact Word.line?_ofNat hshort
    · rw [if_neg hc, if_neg hc, Int64.add_zero, hword]
      exact Word.line?_ofNat (by omega)
  have hskip : Takes ((Stmt.update .add ip (.reg flag)).execAt ip (line + 1))
      (r.set flag (cond.eval r)) 1 (some (if cond.holds r then line + 3 else line + 2))
      (q.set ip (q.get ip + q.get flag)) := by
    refine (takes_execAt_skip_iff (by simp [Stmt.writesPointer])).mpr ⟨.next, ?_, ?_⟩
    · rw [hq]
      exact Stmt.takes_of_tick fun left ↦ by rw [Stmt.exec]; rfl
    · rw [Registers.get_set_self, hnext]
  refine ⟨_, .step h.compare hcompare (.single h.skip hskip), ?_⟩
  intro i hi
  rw [Registers.get_set_of_ne _ hi.symm, ← hq, Registers.get_set_of_ne _ hi.symm]

end SkipAt

/-! ## Keeping the two runs in step -/

/-- A skip is nowhere but in the middle of a place. -/
theorem Guarded.plain {ip : Reg} {code : Code} (hg : Guarded ip code) {line : Nat} {s : Stmt}
    (hs : code[line]? = some s)
    (hno : ∀ {start cond flag target}, SkipAt ip code start cond flag target → line ≠ start + 1) :
    s.writesPointer ip = false := by
  cases hw : s.writesPointer ip with
  | false => rfl
  | true =>
    obtain ⟨start, cond, flag, target, heq, h⟩ := hg line s hs hw
    exact absurd heq (hno h)

theorem Guarded.plain_of_target {ip : Reg} {code : Code} (hg : Guarded ip code) {t : Nat}
    (ht : t ∈ Code.targets code) {s : Stmt} (hs : code[t]? = some s) :
    s.writesPointer ip = false :=
  hg.plain hs fun h ↦ (h.sheltered t ht).1

theorem SkipAt.plain_after {ip : Reg} {code : Code} {line target : Nat} {cond : Cond} {flag : Reg}
    (h : SkipAt ip code line cond flag target) (hg : Guarded ip code) {s : Stmt}
    (hs : code[line + 3]? = some s) : s.writesPointer ip = false := by
  refine hg.plain hs fun {start cond' flag' target'} hskip heq ↦ ?_
  have hcompare := hskip.compare
  rw [show start = line + 2 from by omega, h.jump] at hcompare
  cases hcompare

/-- States of the code before and after a fusion that belong together: control is at the same
statement, which is no skip, and the registers agree, except for the pointer and for the flag where
it is not live. -/
structure InStep (ip : Reg) (outputs : List Reg) (code : Code) (f : Fold) (flag : Reg) (line : Nat)
    (r : Registers) (line' : Nat) (q : Registers) : Prop where
  keeps : f.Keeps line
  line_eq : line' = f.renumber line
  plain : ∀ s, code[line]? = some s → s.writesPointer ip = false
  agree : ∀ i, i ≠ ip → (i = flag → Live ip outputs code i line) → r.get i = q.get i

/-- How the register files at the end belong together. -/
def AgreeAtEnd (ip : Reg) (outputs : List Reg) (flag : Reg) (r' q' : Registers) : Prop :=
  ∀ i, i ≠ ip → (i = flag → i ∈ outputs) → r'.get i = q'.get i

namespace InStep

variable {ip : Reg} {outputs : List Reg} {code : Code} {line target : Nat} {cond : Cond}
  {flag : Reg} {l l' : Nat} {r q : Registers}

/-- Both runs start at the first line, which no skip can be at, on one register file. -/
theorem start {f : Fold} (hg : Guarded ip code) (r : Registers) :
    InStep ip outputs code f flag 0 r 0 r := by
  refine ⟨f.keeps_zero, (Fold.renumber_of_le (Nat.zero_le _)).symm, ?_, fun _ _ _ ↦ rfl⟩
  intro s hs
  exact hg.plain hs fun _ ↦ by omega

theorem agree_of_reads {f : Fold} (h : InStep ip outputs code f flag l r l' q)
    (hf : Fusible ip code) {s : Stmt} (hs : code[l]? = some s) :
    ∀ i, s.reads i = true → r.get i = q.get i := by
  intro i hi
  refine h.agree i ?_ fun _ ↦ .read hs hi
  rintro rfl
  rw [Stmt.reads, Bool.or_eq_true, List.any_eq_true] at hi
  rcases hi with hi | ⟨e, he, hi⟩
  · have hw := h.plain s hs
    cases s with
    | update op dest value =>
      simp only [Stmt.updates, Stmt.writesPointer] at hi hw
      rw [hi] at hw
      cases hw
    | _ => cases hi
  · rw [hf.pointerFree s (List.mem_of_getElem? hs) e he] at hi
    cases hi

theorem eval_of_compare {f : Fold} (h : InStep ip outputs code f flag l r l' q)
    (hf : Fusible ip code) {cond' : Cond} {flag' : Reg}
    (hs : code[l]? = some (.compare cond' flag')) : cond'.eval r = cond'.eval q := by
  refine cond'.toExpr.eval_congr fun i hi ↦ h.agree_of_reads hf hs i ?_
  simpa [Stmt.reads, Stmt.updates, Stmt.exprs] using hi

/-- At the place that was fused: three lines on one side, one branch on the other. -/
theorem lockstep_place (hf : Fusible ip code) (hp : SkipAt ip code line cond flag target)
    (hdead : ¬Live ip outputs code flag (line + 3) ∧ ¬Live ip outputs code flag target)
    (h : InStep ip outputs code (.fusion line cond target) flag line r l' q) :
    Lockstep ip code ((Fold.fusion line cond target).apply code)
      (InStep ip outputs code (.fusion line cond target) flag) (AgreeAtEnd ip outputs flag)
      line r l' q := by
  have hren : (Fold.fusion line cond target).renumber line = line :=
    Fold.renumber_of_le (Nat.le_refl _)
  have hcond : cond.holds r = cond.holds q := by
    rw [Cond.holds, Cond.holds, h.eval_of_compare hf hp.compare]
  have hlt := hp.add_two_lt
  have hshort := hf.short
  obtain ⟨r₁, hreach, hr₁⟩ :=
    hp.reaches (hf.compares hp) (hf.flag_ne hp) (by omega) r
  have hbranch := takes_branch ip line cond ((Fold.fusion line cond target).renumber (line + 3))
    ((Fold.fusion line cond target).renumber target) q
  -- the flag is live at neither of the two ways out
  have agree {next : Nat} (hnext : ¬Live ip outputs code flag next) (i : Reg) (hi : i ≠ ip)
      (hlive : i = flag → Live ip outputs code i next) : r₁.get i = q.get i := by
    have hne : i ≠ flag := by
      rintro rfl
      exact hnext (hlive rfl)
    rw [hr₁ i hi, Registers.get_set_of_ne _ hne.symm]
    exact h.agree i hi fun heq ↦ absurd heq hne
  rw [h.line_eq, hren]
  by_cases hc : cond.holds r
  · rw [if_pos hc] at hreach
    rw [← hcond, if_pos hc] at hbranch
    exact .inr ⟨2, 1, line + 3, r₁, _, q, by omega, by omega, hreach,
      .single hp.getElem?_apply hbranch, Fold.keeps_after _, rfl,
      fun s hs ↦ hp.plain_after hf.guarded hs, agree hdead.1⟩
  · rw [if_neg hc] at hreach
    rw [← hcond, if_neg hc] at hbranch
    have hjump : Takes ((Stmt.goto target).execAt ip (line + 2)) r₁ 1 (some target) r₁ :=
      (takes_execAt_iff rfl).mpr
        ⟨.goto target, rfl, Stmt.takes_of_tick fun left ↦ by rw [Stmt.exec]⟩
    exact .inr ⟨3, 1, target, r₁, _, q, by omega, by omega,
      hreach.trans (.single hp.jump hjump), .single hp.getElem?_apply hbranch,
      hp.keeps_target hp.target_mem, rfl, fun s hs ↦ hf.guarded.plain_of_target hp.target_mem hs,
      agree hdead.2⟩

/-- At a place that is still to be fused: comparison and skip on both sides. -/
theorem lockstep_otherPlace (hf : Fusible ip code) (hp : SkipAt ip code line cond flag target)
    {cond' : Cond} {flag' : Reg} {target' : Nat} (hp' : SkipAt ip code l cond' flag' target')
    (hne : l ≠ line) (h : InStep ip outputs code (.fusion line cond target) flag l r l' q) :
    Lockstep ip code ((Fold.fusion line cond target).apply code)
      (InStep ip outputs code (.fusion line cond target) flag) (AgreeAtEnd ip outputs flag)
      l r l' q := by
  have hflag := hf.flag_ne hp'
  have hval := h.eval_of_compare hf hp'.compare
  have hlt := hp'.add_two_lt
  have hlt' := (hp.apply hp' hne).add_two_lt
  have hshort := hf.short
  have hshort' := (hf.apply hp).short
  obtain ⟨r₁, hreach, hr₁⟩ := hp'.reaches (hf.compares hp') hflag (by omega) r
  obtain ⟨q₁, hreach', hq₁⟩ :=
    (hp.apply hp' hne).reaches (hf.compares hp') hflag (by omega) q
  have hcond : cond'.holds q = cond'.holds r := by rw [Cond.holds, Cond.holds, hval]
  have keeps {i : Nat} (hi : i ≤ 3) :=
    Fold.keeps_add (f := .fusion line cond target) (hp.disjoint hp' hne) hi
  -- what is live after the two lines was live before, except for the flag just stored
  have agree {next : Nat} (hnext : next = l + 2 ∨ next = l + 3) (i : Reg) (hi : i ≠ ip)
      (hlive : i = flag → Live ip outputs code i next) : r₁.get i = q₁.get i := by
    rw [hr₁ i hi, hq₁ i hi, hval, Registers.get_set, Registers.get_set]
    by_cases hstored : flag' = i
    · rw [if_pos hstored, if_pos hstored]
    · rw [if_neg hstored, if_neg hstored]
      refine h.agree i hi fun heq ↦ ?_
      refine .pass hp'.compare (by simpa [Stmt.dest?] using hstored)
        (by simp [Stmt.successors, Stmt.writesPointer])
        (.pass hp'.skip (by simpa [Stmt.dest?] using hi.symm) ?_ (hlive heq))
      simpa [Stmt.successors, Stmt.writesPointer] using hnext
  rw [h.line_eq]
  by_cases hc : cond'.holds r
  · rw [if_pos hc] at hreach
    rw [hcond, if_pos hc, ← (keeps (i := 3) (by omega)).2] at hreach'
    exact .inr ⟨2, 2, l + 3, r₁, _, q₁, by omega, by omega, hreach, hreach',
      (keeps (i := 3) (by omega)).1, rfl, fun s hs ↦ hp'.plain_after hf.guarded hs,
      agree (.inr rfl)⟩
  · rw [if_neg hc] at hreach
    rw [hcond, if_neg hc, ← (keeps (i := 2) (by omega)).2] at hreach'
    refine .inr ⟨2, 2, l + 2, r₁, _, q₁, by omega, by omega, hreach, hreach',
      (keeps (i := 2) (by omega)).1, rfl, ?_, agree (.inl rfl)⟩
    intro s hs
    rw [hp'.jump] at hs
    cases hs
    rfl

/-- Away from all places: one statement on both sides, or the end. -/
theorem lockstep_statement (hf : Fusible ip code) (hp : SkipAt ip code line cond flag target)
    (hplace : ∀ cond' flag' target', ¬SkipAt ip code l cond' flag' target')
    (h : InStep ip outputs code (.fusion line cond target) flag l r l' q) :
    Lockstep ip code ((Fold.fusion line cond target).apply code)
      (InStep ip outputs code (.fusion line cond target) flag) (AgreeAtEnd ip outputs flag)
      l r l' q := by
  have hne : l ≠ line := by
    rintro rfl
    exact hplace _ _ _ hp
  have hget := Fold.getElem?_apply hp.tidy.fits h.keeps hne
  rw [← h.line_eq] at hget
  cases hs : code[l]? with
  | none =>
    rw [hs, Option.map_none] at hget
    exact .inl ⟨0, 0, r, q, .off hs, .off hget, Nat.le_refl 0,
      fun i hi hout ↦ h.agree i hi fun heq ↦ .exit hs (hout heq)⟩
  | some s =>
    rw [hs, Option.map_some] at hget
    have hw := h.plain s hs
    obtain ⟨flow, r', q', hr, hq, hchange, hhalt, hsucc⟩ :=
      Stmt.takes_of_agree ip (hf.flat s (List.mem_of_getElem? hs)) (h.agree_of_reads hf hs)
    have hr' : Takes (s.execAt ip l) r 1 (flow.next? (l + 1)) r' :=
      (takes_execAt_iff hw).mpr ⟨flow, rfl, hr⟩
    have hq' : Takes ((s.mapTargets (Fold.fusion line cond target).renumber).execAt ip l') q 1
        ((flow.next? (l + 1)).map (Fold.fusion line cond target).renumber) q' := by
      rw [h.line_eq]
      exact (takes_execAt_mapTargets_iff hw (h.keeps.renumber_succ hne)).mpr
        ⟨_, rfl, (takes_execAt_iff hw).mpr ⟨flow, rfl, hq⟩⟩
    cases hflow : flow.next? (l + 1) with
    | none =>
      rw [hflow] at hr' hq'
      have hstop : s = .halt :=
        hhalt (hr.unique ((takes_execAt_none_iff hw).mp hr')).2.1
      refine .inl ⟨1, 1, r', q', .stop hs hr', .stop hget hq', Nat.le_refl 1, ?_⟩
      intro i hi hout
      obtain ⟨hri, hqi⟩ := hchange.frame i (by rw [hstop]; nofun)
      rw [hri, hqi]
      exact h.agree i hi fun heq ↦ .halt (hstop ▸ hs) (hout heq)
    | some next =>
      rw [hflow] at hr' hq'
      have hmem := hsucc hw l next hflow
      have hnext : next = l + 1 ∨ next ∈ s.targets := by
        rcases Stmt.cases_of_mem_successors hmem with hn | hn | ⟨hw', -⟩
        · exact .inl hn
        · exact .inr hn
        · rw [hw] at hw'
          cases hw'
      refine .inr ⟨1, 1, next, r', _, q', by omega, by omega, .single hs hr', .single hget hq',
        ?_, rfl, ?_, ?_⟩
      · rcases hnext with rfl | hn
        · exact h.keeps.succ hne
        · exact hp.keeps_target (Code.mem_targets_iff.mpr ⟨l, s, hs, hn⟩)
      · intro s' hs'
        rcases hnext with rfl | hn
        · refine hf.guarded.plain hs' fun hskip heq ↦ ?_
          rw [← Nat.add_right_cancel heq] at hskip
          exact hplace _ _ _ hskip
        · exact hf.guarded.plain_of_target (Code.mem_targets_iff.mpr ⟨l, s, hs, hn⟩) hs'
      · intro i hi hlive
        by_cases hd : s.dest? = some i
        · exact hchange.same i hd
        · obtain ⟨hri, hqi⟩ := hchange.frame i hd
          rw [hri, hqi]
          exact h.agree i hi fun heq ↦ .pass hs hd hmem (hlive heq)

/-- **Related states move on to related states.** -/
theorem lockstep (hf : Fusible ip code) (hp : SkipAt ip code line cond flag target)
    (hdead : ¬Live ip outputs code flag (line + 3) ∧ ¬Live ip outputs code flag target)
    (h : InStep ip outputs code (.fusion line cond target) flag l r l' q) :
    Lockstep ip code ((Fold.fusion line cond target).apply code)
      (InStep ip outputs code (.fusion line cond target) flag) (AgreeAtEnd ip outputs flag)
      l r l' q := by
  by_cases hplace : ∃ cond' flag' target', SkipAt ip code l cond' flag' target'
  · obtain ⟨cond', flag', target', hp'⟩ := hplace
    by_cases hl : l = line
    · subst hl
      exact lockstep_place hf hp hdead h
    · exact lockstep_otherPlace hf hp hp' hl h
  · exact lockstep_statement hf hp (fun c f t hs ↦ hplace ⟨c, f, t, hs⟩) h

end InStep

end Code

/-! ## Folding one pattern to the end -/

namespace Pattern

/-- The code after each of the folds of a pattern, made one after the other as long as there is one
to make. -/
def folds (ip : Reg) (p : Pattern) (code : Code) : List Code :=
  match h : p.foldFirst? ip code with
  | none => []
  | some code' =>
    have : code'.length < code.length := length_lt_of_foldFirst? h
    code' :: folds ip p code'
termination_by code.length

/-- The code in which nothing of the pattern is left to fold. -/
def foldAll (ip : Reg) (p : Pattern) (code : Code) : Code := (p.folds ip code).getLastD code

variable {ip : Reg} {p : Pattern} {code code' : Code}

theorem folds_of_none (h : p.foldFirst? ip code = none) : p.folds ip code = [] := by
  rw [folds]
  split
  · rfl
  · next h' => rw [h] at h'; cases h'

theorem folds_of_some (h : p.foldFirst? ip code = some code') :
    p.folds ip code = code' :: p.folds ip code' := by
  rw [folds]
  split
  · next h' => rw [h] at h'; cases h'
  · next h' =>
    rw [h] at h'
    cases h'
    rfl

theorem foldAll_of_none (h : p.foldFirst? ip code = none) : p.foldAll ip code = code := by
  rw [foldAll, folds_of_none h, List.getLastD_nil]

theorem foldAll_of_some (h : p.foldFirst? ip code = some code') :
    p.foldAll ip code = p.foldAll ip code' := by
  rw [foldAll, folds_of_some h, List.getLastD_cons, foldAll]

end Pattern

namespace Code

variable {ip : Reg}

theorem exists_skipAt_of_foldFirst? {code code' : Code}
    (h : Pattern.ifElse.foldFirst? ip code = some code') :
    ∃ line cond flag target, SkipAt ip code line cond flag target ∧
      code' = (Fold.fusion line cond target).apply code := by
  obtain ⟨f, hf, rfl⟩ := Option.map_eq_some_iff.mp h
  obtain ⟨line, cond, flag, target, hp, rfl⟩ := exists_skipAt_of_find? hf
  exact ⟨line, cond, flag, target, hp, rfl⟩

/-- A fusion takes one skip away. -/
theorem SkipAt.countP_apply {code : Code} {line target : Nat} {cond : Cond} {flag : Reg}
    (h : SkipAt ip code line cond flag target) :
    ((Fold.fusion line cond target).apply code).countP (Stmt.writesPointer ip) + 1 =
      code.countP (Stmt.writesPointer ip) := by
  have hsplit : code = code.take line ++ .compare cond flag :: .update .add ip (.reg flag) ::
      .goto target :: code.drop (line + 3) := by
    rw [← h.drop_eq, List.take_append_drop]
  have hmap : Stmt.writesPointer ip ∘ Stmt.mapTargets (Fold.fusion line cond target).renumber =
      Stmt.writesPointer ip := by
    funext s
    exact Stmt.writesPointer_mapTargets ..
  rw [Fold.apply_eq_mapTargets, Code.mapTargets_eq_map, List.countP_map, hmap, Fold.surviving]
  conv => rhs; rw [hsplit]
  simp only [Fold.fusion, List.countP_append, List.countP_cons, Stmt.writesPointer,
    beq_self_eq_true, if_true, Bool.false_eq_true, if_false, Nat.add_assoc, Nat.reduceAdd]

/-- **In fusible code all skips are fused, one by each fold.** -/
theorem Fusible.foldAll_ifElse (code : Code) (hf : Fusible ip code) :
    (∀ s ∈ Pattern.ifElse.foldAll ip code, s.writesPointer ip = false) ∧
      (Pattern.ifElse.folds ip code).length = code.countP (Stmt.writesPointer ip) := by
  cases h : Pattern.ifElse.foldFirst? ip code with
  | none =>
    have hplain := hf.guarded.plain_of_find? (Option.map_eq_none_iff.mp h)
    rw [Pattern.foldAll_of_none h, Pattern.folds_of_none h]
    refine ⟨hplain, (List.countP_eq_zero.mpr fun s hs ↦ ?_).symm⟩
    simp [hplain s hs]
  | some code' =>
    have hlt := Pattern.length_lt_of_foldFirst? h
    obtain ⟨line, cond, flag, target, hp, hcode'⟩ := exists_skipAt_of_foldFirst? h
    obtain ⟨hplain, hcount⟩ := Fusible.foldAll_ifElse code' (hcode' ▸ hf.apply hp)
    rw [Pattern.foldAll_of_some h, Pattern.folds_of_some h]
    refine ⟨hplain, ?_⟩
    rw [List.length_cons, hcount, hcode', hp.countP_apply]
termination_by code.length

/-- The flags of skips are not live where control comes out of their places. -/
def FlagsDead (ip : Reg) (outputs : List Reg) (code : Code) : Prop :=
  ∀ line cond flag target, SkipAt ip code line cond flag target →
    ¬Live ip outputs code flag (line + 3) ∧ ¬Live ip outputs code flag target

/-- The register is the flag of a skip. -/
def IsFlag (ip : Reg) (code : Code) (i : Reg) : Prop :=
  ∃ line cond target, SkipAt ip code line cond i target

section

variable {code : Code} {line target : Nat} {cond : Cond} {flag : Reg} {outputs : List Reg}

theorem FlagsDead.apply (hf : Fusible ip code) (hdead : FlagsDead ip outputs code)
    (hp : SkipAt ip code line cond flag target) :
    FlagsDead ip outputs ((Fold.fusion line cond target).apply code) := by
  intro l' cond' flag' t' happ
  obtain ⟨l, t, -, hne, -, -, rfl, rfl, hp'⟩ := hp.tidy.skipAt_of_apply happ
  have hlive {k' k : Nat} (hk : (Fold.fusion line cond target).Keeps k)
      (heq : k' = (Fold.fusion line cond target).renumber k)
      (hnot : ¬Live ip outputs code flag' k) :
      ¬Live ip outputs ((Fold.fusion line cond target).apply code) flag' k' :=
    fun hl ↦ hnot (hp.live_of_apply hf.guarded (hf.flag_ne hp')
      (fun heq ↦ heq ▸ hdead line cond flag target hp) hl hk heq)
  obtain ⟨hk₃, hren₃⟩ := Fold.keeps_add (f := .fusion line cond target) (i := 3)
    (hp.disjoint hp' hne) (by omega)
  obtain ⟨h₁, h₂⟩ := hdead l cond' flag' t hp'
  exact ⟨hlive hk₃ hren₃.symm h₁, hlive (hp.keeps_target hp'.target_mem) rfl h₂⟩

theorem IsFlag.of_apply (hp : SkipAt ip code line cond flag target) {i : Reg}
    (h : IsFlag ip ((Fold.fusion line cond target).apply code) i) : IsFlag ip code i := by
  obtain ⟨l', cond', t', hp'⟩ := h
  obtain ⟨l, t, -, -, -, -, -, -, hp'⟩ := hp.tidy.skipAt_of_apply hp'
  exact ⟨l, cond', t, hp'⟩

end

/-- Code with all its skips fused ends as the code did, in no more steps. -/
theorem ends_foldAll_ifElse {outputs : List Reg} (code : Code) (hf : Fusible ip code)
    (hdead : FlagsDead ip outputs code) {r r' : Registers} {n : Nat}
    (he : Ends ip code 0 r n r') :
    ∃ m q', m ≤ n ∧ Ends ip (Pattern.ifElse.foldAll ip code) 0 r m q' ∧
      ∀ i, i ≠ ip → (IsFlag ip code i → i ∈ outputs) → r'.get i = q'.get i := by
  cases h : Pattern.ifElse.foldFirst? ip code with
  | none =>
    rw [Pattern.foldAll_of_none h]
    exact ⟨n, r', Nat.le_refl n, he, fun _ _ _ ↦ rfl⟩
  | some code' =>
    have hlt := Pattern.length_lt_of_foldFirst? h
    obtain ⟨line, cond, flag, target, hp, hcode'⟩ := exists_skipAt_of_foldFirst? h
    obtain ⟨m₁, q₁, he₁, hm₁, hagree₁⟩ :=
      ends_of_lockstep (InStep.lockstep hf hp (hdead line cond flag target hp))
        (InStep.start hf.guarded r) he
    rw [← hcode'] at he₁
    obtain ⟨m₂, q₂, hm₂, he₂, hagree₂⟩ :=
      ends_foldAll_ifElse code' (hcode' ▸ hf.apply hp) (hcode' ▸ hdead.apply hf hp) he₁
    rw [Pattern.foldAll_of_some h]
    refine ⟨m₂, q₂, Nat.le_trans hm₂ hm₁, he₂, fun i hi hout ↦ ?_⟩
    rw [hagree₁ i hi fun heq ↦ hout ⟨line, cond, target, heq ▸ hp⟩]
    exact hagree₂ i hi fun hflag ↦ hout (.of_apply hp (hcode' ▸ hflag))
termination_by code.length

/-- Code ends as it does with all its skips fused. -/
theorem ends_of_foldAll_ifElse {outputs : List Reg} (code : Code) (hf : Fusible ip code)
    (hdead : FlagsDead ip outputs code) {r q' : Registers} {m : Nat}
    (he : Ends ip (Pattern.ifElse.foldAll ip code) 0 r m q') :
    ∃ n r', Ends ip code 0 r n r' := by
  cases h : Pattern.ifElse.foldFirst? ip code with
  | none =>
    rw [Pattern.foldAll_of_none h] at he
    exact ⟨m, q', he⟩
  | some code' =>
    have hlt := Pattern.length_lt_of_foldFirst? h
    obtain ⟨line, cond, flag, target, hp, hcode'⟩ := exists_skipAt_of_foldFirst? h
    rw [Pattern.foldAll_of_some h] at he
    obtain ⟨n₁, q₁, he₁⟩ :=
      ends_of_foldAll_ifElse code' (hcode' ▸ hf.apply hp) (hcode' ▸ hdead.apply hf hp) he
    rw [hcode'] at he₁
    obtain ⟨n, r', he', -⟩ :=
      ends_back_of_lockstep (InStep.lockstep hf hp (hdead line cond flag target hp))
        (InStep.start hf.guarded r) he₁
    exact ⟨n, r', he'⟩
termination_by code.length

/-- **Fusing is sound up to the flags.** In fusible code every assignment to the pointer goes, one
by each fold. If besides the flags are not live where control comes out of their places, then from
every register file the code halts, given enough steps, exactly when the fused code does; the
registers at the end are the same, except for the pointer and the flags. Fused code halts under
every limit under which the code does. -/
theorem fused_sound (ip : Reg) (code : Code) (hf : Fusible ip code) :
    (∀ s ∈ Pattern.ifElse.foldAll ip code, s.writesPointer ip = false) ∧
    (Pattern.ifElse.folds ip code).length = code.countP (Stmt.writesPointer ip) ∧
    (FlagsDead ip [] code → ∀ r,
      ((∃ r', HaltsWith ip code r r') ↔
        ∃ q', HaltsWith ip (Pattern.ifElse.foldAll ip code) r q') ∧
      (∀ r' q', HaltsWith ip code r r' → HaltsWith ip (Pattern.ifElse.foldAll ip code) r q' →
        ∀ i, i ≠ ip → ¬IsFlag ip code i → r'.get i = q'.get i) ∧
      ∀ limit e, Code.run ip code limit r = .ok e →
        ∃ e', Code.run ip (Pattern.ifElse.foldAll ip code) limit r = .ok e' ∧
          e'.steps ≤ e.steps) := by
  obtain ⟨hplain, hcount⟩ := hf.foldAll_ifElse
  refine ⟨hplain, hcount, fun hdead r ↦ ⟨?_, ?_, ?_⟩⟩
  · simp only [haltsWith_iff]
    constructor
    · rintro ⟨r', n, he⟩
      obtain ⟨m, q', -, he', -⟩ := ends_foldAll_ifElse code hf hdead he
      exact ⟨q', m, he'⟩
    · rintro ⟨q', m, he⟩
      obtain ⟨n, r', he'⟩ := ends_of_foldAll_ifElse code hf hdead he
      exact ⟨r', n, he'⟩
  · intro r' q' hr hq i hi hflag
    obtain ⟨n, he⟩ := haltsWith_iff.mp hr
    obtain ⟨m, he'⟩ := haltsWith_iff.mp hq
    obtain ⟨m', q'', -, he'', hagree⟩ := ends_foldAll_ifElse code hf hdead he
    rw [(he'.unique he'').2]
    exact hagree i hi fun h ↦ absurd h hflag
  · intro limit e hrun
    obtain ⟨hle, he⟩ := run_eq_ok_iff.mp hrun
    obtain ⟨m, q', hm, he', -⟩ := ends_foldAll_ifElse code hf hdead he
    exact ⟨⟨q', m⟩, run_eq_ok_iff.mpr ⟨Nat.le_trans hm hle, he'⟩, hm⟩

/-- Counts register 1 up to four, with its loop closed by a skip, and copies it to register 0. -/
def countToFour : Code :=
  [.update .add 1 (.lit 1), .compare ⟨.gt, .reg 1, .lit 3⟩ 2, .update .add 5 (.reg 2), .goto 0,
    .assign 0 (.reg 1)]

theorem skipAt_countToFour_iff {line target : Nat} {cond : Cond} {flag : Reg} :
    SkipAt 5 countToFour line cond flag target ↔
      line = 1 ∧ cond = ⟨.gt, .reg 1, .lit 3⟩ ∧ flag = 2 ∧ target = 0 := by
  constructor
  · rintro ⟨hcompare, hskip, hjump, -⟩
    match line with
    | 1 =>
      cases hcompare
      cases hjump
      exact ⟨rfl, rfl, rfl, rfl⟩
    | 0 | 2 | 3 | 4 => cases hcompare
    | line + 5 => cases hcompare
  · rintro ⟨rfl, rfl, rfl, rfl⟩
    exact ⟨rfl, rfl, rfl, by decide⟩

theorem fusible_countToFour : Fusible 5 countToFour where
  flat := by decide
  short := by decide
  guarded := by
    intro line s hs hw
    match line with
    | 2 => exact ⟨1, _, 2, 0, rfl, skipAt_countToFour_iff.mpr ⟨rfl, rfl, rfl, rfl⟩⟩
    | 0 | 1 | 3 | 4 =>
      cases hs
      cases hw
    | line + 5 => cases hs
  pointerFree := by decide
  compares := by
    intro line cond flag target h
    obtain ⟨-, rfl, -, -⟩ := skipAt_countToFour_iff.mp h
    exact .inl rfl

theorem flagsDead_countToFour : FlagsDead 5 [] countToFour := by
  intro line cond flag target h
  obtain ⟨rfl, -, rfl, rfl⟩ := skipAt_countToFour_iff.mp h
  have hclosed : closed 5 [] countToFour 2 [0, 1, 4, 5] = true := by decide
  exact ⟨not_live_of_closed hclosed (by decide), not_live_of_closed hclosed (by decide)⟩

theorem fused_sound_countToFour :
    ∃ q', HaltsWith 5 (Pattern.ifElse.foldAll 5 countToFour) ⟨#v[0, 0, 0, 0, 0, 0]⟩ q' ∧
      q'.get 0 = 4 := by
  obtain ⟨-, -, hsound⟩ := fused_sound 5 countToFour fusible_countToFour
  obtain ⟨hiff, hagree, -⟩ := hsound flagsDead_countToFour ⟨#v[0, 0, 0, 0, 0, 0]⟩
  have hhalts : HaltsWith 5 countToFour ⟨#v[0, 0, 0, 0, 0, 0]⟩ ⟨#v[4, 4, 1, 0, 0, 3]⟩ :=
    ⟨20, 4, by decide +kernel⟩
  obtain ⟨q', hq'⟩ := hiff.mp ⟨_, hhalts⟩
  refine ⟨q', hq', ?_⟩
  have hflag : ¬IsFlag 5 countToFour 0 := by
    rintro ⟨line, cond, target, h⟩
    cases (skipAt_countToFour_iff.mp h).2.2.1
  rw [← hagree _ q' hhalts hq' 0 (by decide) hflag]
  rfl

end Code

end Unjump
