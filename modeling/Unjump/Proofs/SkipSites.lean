import Unjump.Proofs.Liveness
import Unjump.Proofs.Structure

/-!
# The places where skips stand

A fusion needs a comparison, a skip by its flag and a jump on three lines in a row, the last two of
which are no targets. `Code.SkipAt` is such a place, and the search for a fusion finds exactly these
(`Code.ifElseAt_eq_some_iff`).

## Places come and go with skips

Every fold takes lines away, and the targets of what it takes away go too, so it has to be asked
whether a place can come up that was none before. It cannot: the targets that are lost lie within
the stretch of the fold or directly behind it (`Fold.Tidy`), and neither can be inside a place that
the fold leaves. So a place in folded code was a place before (`Fold.Tidy.skipAt_of_apply`). In code
in which nothing can be fused, the other folds do not change that.
-/

namespace Unjump

/-! ## Places -/

namespace Code

/-- A comparison, a skip by its flag and a jump from a line on, entered at the comparison only. -/
structure SkipAt (ip : Reg) (code : Code) (line : Nat) (cond : Cond) (flag : Reg) (target : Nat) :
    Prop where
  compare : code[line]? = some (.compare cond flag)
  skip : code[line + 1]? = some (.update .add ip (.reg flag))
  jump : code[line + 2]? = some (.goto target)
  sheltered : ∀ t ∈ Code.targets code, t ≠ line + 1 ∧ t ≠ line + 2

/-- Every assignment to the pointer is the skip of such a place. -/
def Guarded (ip : Reg) (code : Code) : Prop :=
  ∀ (line : Nat) (s : Stmt), code[line]? = some s → s.writesPointer ip = true →
    ∃ start cond flag target, line = start + 1 ∧ SkipAt ip code start cond flag target

end Code

/-- The fold that makes a branch of a comparison, a skip and a jump. -/
def Fold.fusion (line : Nat) (cond : Cond) (target : Nat) : Fold :=
  ⟨line, 2, .branch cond (line + 3) target⟩

namespace Code

variable {ip : Reg} {code : Code} {line : Nat}

theorem SkipAt.drop_eq {cond : Cond} {flag : Reg} {target : Nat}
    (h : SkipAt ip code line cond flag target) :
    code.drop line = .compare cond flag :: .update .add ip (.reg flag) :: .goto target ::
      code.drop (line + 3) := by
  rw [List.drop_eq_getElem?_toList_append (i := line), h.compare,
    List.drop_eq_getElem?_toList_append (i := line + 1), h.skip,
    List.drop_eq_getElem?_toList_append (i := line + 1 + 1), h.jump]
  rfl

/-- **Fusions are found at these places and nowhere else.** -/
theorem ifElseAt_eq_some_iff {f : Fold} :
    Pattern.ifElseAt ip code line (code.drop line) = some f ↔
      ∃ cond flag target, SkipAt ip code line cond flag target ∧ f = .fusion line cond target := by
  constructor
  · intro h
    unfold Pattern.ifElseAt at h
    split at h
    · next cond dest pointer flag target rest hdrop =>
      split at h
      · next hguard =>
        cases h
        simp only [Bool.and_eq_true, beq_iff_eq, Bool.not_eq_true', List.any_eq_false,
          Bool.or_eq_true, not_or] at hguard
        obtain ⟨⟨rfl, rfl⟩, hnone⟩ := hguard
        obtain ⟨hcompare, hrest⟩ := Pattern.getElem?_of_drop hdrop
        obtain ⟨hskip, hrest'⟩ := Pattern.getElem?_of_drop hrest
        exact ⟨cond, flag, target,
          ⟨hcompare, hskip, (Pattern.getElem?_of_drop hrest').1, hnone⟩, rfl⟩
      · cases h
    · cases h
  · rintro ⟨cond, flag, target, h, rfl⟩
    rw [h.drop_eq, Pattern.ifElseAt, if_pos]
    · rfl
    · simp only [beq_self_eq_true, Bool.and_self, Bool.true_and, Bool.not_eq_true',
        List.any_eq_false, Bool.or_eq_true, beq_iff_eq, not_or]
      exact h.sheltered

theorem SkipAt.add_two_lt {cond : Cond} {flag : Reg} {target : Nat}
    (h : SkipAt ip code line cond flag target) : line + 2 < code.length :=
  (List.getElem?_eq_some_iff.mp h.jump).1

theorem exists_skipAt_of_find? {f : Fold} (h : Pattern.ifElse.find? ip code = some f) :
    ∃ line cond flag target, SkipAt ip code line cond flag target ∧
      f = .fusion line cond target := by
  obtain ⟨line, -, hf⟩ := Pattern.exists_of_firstFrom h
  rw [Nat.zero_add] at hf
  exact ⟨line, ifElseAt_eq_some_iff.mp hf⟩

end Code

theorem Pattern.eq_none_of_firstFrom {at? : Nat → Code → Option Fold} {line : Nat} {code : Code}
    (h : firstFrom at? line code = none) {k : Nat} (hk : k < code.length) :
    at? (line + k) (code.drop k) = none := by
  induction code generalizing line k with
  | nil => cases hk
  | cons s rest ih =>
    rw [firstFrom, Option.or_eq_none_iff] at h
    cases k with
    | zero => exact h.1
    | succ k =>
      have hrest := ih h.2 (Nat.lt_of_succ_lt_succ hk)
      rwa [Nat.add_assoc, Nat.add_comm 1 k] at hrest

namespace Code

variable {ip : Reg} {code : Code}

/-- Nothing can be fused exactly when there is no such place. -/
theorem find?_ifElse_eq_none_iff :
    Pattern.ifElse.find? ip code = none ↔
      ∀ line cond flag target, ¬SkipAt ip code line cond flag target := by
  constructor
  · intro h line cond flag target hs
    have hlt := hs.add_two_lt
    have hnone := Pattern.eq_none_of_firstFrom h (k := line) (by omega)
    rw [Nat.zero_add] at hnone
    have hsome := ifElseAt_eq_some_iff.mpr ⟨cond, flag, target, hs, rfl⟩
    rw [Pattern.foldAt?, hsome] at hnone
    cases hnone
  · intro h
    cases hf : Pattern.ifElse.find? ip code with
    | none => rfl
    | some f =>
      obtain ⟨line, cond, flag, target, hs, -⟩ := exists_skipAt_of_find? hf
      exact absurd hs (h line cond flag target)

/-- In guarded code, as long as there is an assignment to the pointer there is something to fuse. -/
theorem Guarded.plain_of_find? (hg : Guarded ip code)
    (h : Pattern.ifElse.find? ip code = none) : ∀ s ∈ code, s.writesPointer ip = false := by
  intro s hs
  obtain ⟨line, hline⟩ := List.mem_iff_getElem?.mp hs
  cases hw : s.writesPointer ip with
  | false => rfl
  | true =>
    obtain ⟨start, cond, flag, target, -, hskip⟩ := hg line s hline hw
    exact absurd hskip (find?_ifElse_eq_none_iff.mp h start cond flag target)

end Code

/-! ## Folds and places -/

/-- Statements that store have no targets to send anywhere. -/
theorem Stmt.mapTargets_eq_iff_of_dest? {g : Nat → Nat} {s s' : Stmt} (hd : s'.dest? ≠ none) :
    s.mapTargets g = s' ↔ s = s' := by
  cases s <;> cases s' <;> simp_all [Stmt.mapTargets, Stmt.dest?]

theorem Stmt.mapTargets_eq_goto {g : Nat → Nat} {s : Stmt} {t' : Nat}
    (h : s.mapTargets g = .goto t') : ∃ t, t' = g t ∧ s = .goto t := by
  cases s with
  | goto t =>
    cases h
    exact ⟨t, rfl, rfl⟩
  | _ => cases h

namespace Fold

/-- What a fold takes away is no store and no jump in its own right, and the targets that are lost
with it lie in its stretch or directly behind. -/
structure Tidy (f : Fold) (code : Code) : Prop where
  fits : f.Fits code
  /-- The new statement is none of those that make up a place for a fusion. -/
  stores : f.stmt.dest? = none
  jumps : ∀ t, f.stmt ≠ .goto t
  lost : ∀ (line : Nat) (s : Stmt), code[line]? = some s → f.start ≤ line →
    line ≤ f.start + f.removed → ∀ t ∈ s.targets,
      t ∈ f.stmt.targets ∨ f.start ≤ t ∧ t ≤ f.start + f.removed + 1

variable {f : Fold} {code : Code}

theorem renumber_mem_targets_of_stmt (hfits : f.Fits code) {t : Nat} (ht : t ∈ f.stmt.targets) :
    f.renumber t ∈ Code.targets (f.apply code) := by
  refine Code.mem_targets_iff.mpr ⟨f.start, _, getElem?_apply_start hfits, ?_⟩
  rw [Stmt.targets_mapTargets]
  exact List.mem_map_of_mem ht

theorem renumber_mem_targets_of_keeps (hfits : f.Fits code) {line t : Nat} {s : Stmt}
    (hk : f.Keeps line) (hne : line ≠ f.start) (hs : code[line]? = some s) (ht : t ∈ s.targets) :
    f.renumber t ∈ Code.targets (f.apply code) := by
  refine Code.mem_targets_iff.mpr ⟨f.renumber line, s.mapTargets f.renumber, ?_, ?_⟩
  · rw [getElem?_apply hfits hk hne, hs, Option.map_some]
  · rw [Stmt.targets_mapTargets]
    exact List.mem_map_of_mem ht

theorem exists_of_mem_targets_apply {t' : Nat} (h : t' ∈ Code.targets (f.apply code)) :
    ∃ t, t' = f.renumber t ∧ (t ∈ f.stmt.targets ∨ t ∈ Code.targets code) := by
  obtain ⟨line, s, hs, ht⟩ := Code.mem_targets_iff.mp h
  obtain ⟨s', rfl, hs'⟩ := exists_of_mem_apply (List.mem_of_getElem? hs)
  rw [Stmt.targets_mapTargets] at ht
  obtain ⟨t, hmem, rfl⟩ := List.mem_map.mp ht
  refine ⟨t, rfl, ?_⟩
  rcases hs' with rfl | hs'
  · exact .inl hmem
  · rw [Code.targets_eq_flatMap]
    exact .inr (List.mem_flatMap.mpr ⟨s', hs', hmem⟩)

/-- Every line of folded code but the new one comes from a line that was kept. -/
theorem exists_renumber_eq {line' : Nat} (hne : line' ≠ f.start) :
    ∃ line, f.Keeps line ∧ line ≠ f.start ∧ f.renumber line = line' := by
  by_cases hlt : line' < f.start
  · exact ⟨line', .inl (by omega), hne, renumber_of_le (by omega)⟩
  · refine ⟨line' + f.removed, .inr (by omega), by omega, ?_⟩
    rw [renumber_of_lt (by omega)]
    omega

theorem Keeps.succ_ne_start {line : Nat} (hk : f.Keeps line) (hne : line ≠ f.start)
    (h : f.renumber line + 1 ≠ f.start) : line + 1 ≠ f.start := by
  intro heq
  rw [← hk.renumber_succ hne, heq, renumber_of_le (Nat.le_refl _)] at h
  exact h rfl

namespace Tidy

variable {ip : Reg}

theorem getElem?_start_ne_of_dest? (h : f.Tidy code) {s : Stmt} (hd : s.dest? ≠ none) :
    (f.apply code)[f.start]? ≠ some s := by
  rw [getElem?_apply_start h.fits]
  intro heq
  rw [← (Stmt.mapTargets_eq_iff_of_dest? hd).mp (Option.some.inj heq), h.stores] at hd
  exact hd rfl

theorem getElem?_start_ne_goto (h : f.Tidy code) (t : Nat) :
    (f.apply code)[f.start]? ≠ some (.goto t) := by
  rw [getElem?_apply_start h.fits]
  intro heq
  obtain ⟨t', -, hgoto⟩ := Stmt.mapTargets_eq_goto (Option.some.inj heq)
  exact h.jumps t' hgoto

/-- **A place for a fusion in folded code was one before.** -/
theorem skipAt_of_apply (h : f.Tidy code) {line' target' : Nat} {cond : Cond} {flag : Reg}
    (hs : Code.SkipAt ip (f.apply code) line' cond flag target') :
    ∃ line target, f.Keeps line ∧ line ≠ f.start ∧ line + 1 ≠ f.start ∧ line + 2 ≠ f.start ∧
      line' = f.renumber line ∧ target' = f.renumber target ∧
      Code.SkipAt ip code line cond flag target := by
  have hne₀ : line' ≠ f.start := by
    rintro rfl
    exact h.getElem?_start_ne_of_dest? (by simp [Stmt.dest?]) hs.compare
  have hne₁ : line' + 1 ≠ f.start := by
    intro heq
    exact h.getElem?_start_ne_of_dest? (by simp [Stmt.dest?]) (heq ▸ hs.skip)
  have hne₂ : line' + 2 ≠ f.start := by
    intro heq
    exact h.getElem?_start_ne_goto target' (heq ▸ hs.jump)
  -- so the three lines come from three kept lines in a row
  obtain ⟨line, hk, hne, rfl⟩ := exists_renumber_eq hne₀
  have hk₁ := hk.succ hne
  have hren₁ := hk.renumber_succ hne
  have hne' := hk.succ_ne_start hne hne₁
  have hk₂ := hk₁.succ hne'
  have hren₂ : f.renumber (line + 2) = f.renumber line + 2 := by
    rw [hk₁.renumber_succ hne', hren₁]
  have hne'' : line + 2 ≠ f.start := hk₁.succ_ne_start hne' (by rw [hren₁]; exact hne₂)
  obtain ⟨hcompare, hskip, hjump, hshelter⟩ := hs
  rw [getElem?_apply h.fits hk hne] at hcompare
  rw [← hren₁, getElem?_apply h.fits hk₁ hne'] at hskip
  rw [← hren₂, getElem?_apply h.fits hk₂ hne''] at hjump
  obtain ⟨s₀, hs₀, heq₀⟩ := Option.map_eq_some_iff.mp hcompare
  obtain ⟨s₁, hs₁, heq₁⟩ := Option.map_eq_some_iff.mp hskip
  obtain ⟨s₂, hs₂, heq₂⟩ := Option.map_eq_some_iff.mp hjump
  rw [Stmt.mapTargets_eq_iff_of_dest? (by simp [Stmt.dest?])] at heq₀ heq₁
  obtain ⟨target, rfl, rfl⟩ := Stmt.mapTargets_eq_goto heq₂
  refine ⟨line, target, hk, hne, hne', hne'', rfl, rfl, heq₀ ▸ hs₀, heq₁ ▸ hs₁, hs₂, ?_⟩
  -- a target of the code is a target of folded code, or it lies where the fold was made
  have outside {t : Nat} (ht : f.renumber t ∈ Code.targets (f.apply code)) :
      t ≠ line + 1 ∧ t ≠ line + 2 := by
    obtain ⟨h₁, h₂⟩ := hshelter _ ht
    rw [← hren₁] at h₁
    rw [← hren₂] at h₂
    exact ⟨fun heq ↦ h₁ (heq ▸ rfl), fun heq ↦ h₂ (heq ▸ rfl)⟩
  intro t ht
  obtain ⟨l, s, hl, ht⟩ := Code.mem_targets_iff.mp ht
  by_cases hin : f.start ≤ l ∧ l ≤ f.start + f.removed
  · rcases h.lost l s hl hin.1 hin.2 t ht with ht | hnear
    · exact outside (renumber_mem_targets_of_stmt h.fits ht)
    · have hpos := h.fits.1
      simp only [Keeps] at hk hk₁ hk₂
      omega
  · have hkl : f.Keeps l := by
      simp only [Keeps]
      omega
    exact outside (renumber_mem_targets_of_keeps h.fits hkl (by omega) hl ht)

/-- Where nothing can be fused, a fold does not change that. -/
theorem find?_ifElse_apply (h : f.Tidy code) (hnone : Pattern.ifElse.find? ip code = none) :
    Pattern.ifElse.find? ip (f.apply code) = none := by
  rw [Code.find?_ifElse_eq_none_iff] at hnone ⊢
  intro line' cond flag target' hs
  obtain ⟨line, target, -, -, -, -, -, -, hs⟩ := h.skipAt_of_apply hs
  exact hnone line cond flag target hs

end Tidy

/-- No assignment to the pointer is in the stretch of the fold. -/
def SparesSkips (f : Fold) (ip : Reg) (code : Code) : Prop :=
  ∀ (line : Nat) (s : Stmt), code[line]? = some s → f.start ≤ line →
    line ≤ f.start + f.removed → s.writesPointer ip = false

theorem SparesSkips.plain_of_apply {ip : Reg} (h : f.SparesSkips ip code) (hfits : f.Fits code)
    (hplain : ∀ s ∈ f.apply code, s.writesPointer ip = false) :
    ∀ s ∈ code, s.writesPointer ip = false := by
  intro s hs
  obtain ⟨line, hline⟩ := List.mem_iff_getElem?.mp hs
  by_cases hin : f.start ≤ line ∧ line ≤ f.start + f.removed
  · exact h line s hline hin.1 hin.2
  · have hk : f.Keeps line := by
      simp only [Keeps]
      omega
    have hget := getElem?_apply hfits hk (by omega)
    rw [hline, Option.map_some] at hget
    have hw := hplain _ (List.mem_of_getElem? hget)
    rwa [Stmt.writesPointer_mapTargets] at hw

end Fold

/-! ## The folds that are no fusions -/

namespace Pattern

variable {ip : Reg} {code : Code} {line : Nat} {f : Fold}

theorem tidy_singleIf (h : singleIfAt ip code line (code.drop line) = some f) :
    f.Tidy code ∧ f.SparesSkips ip code := by
  have hfits : f.Fits code := fits_of_foldAt? (p := singleIf) h
  obtain ⟨cond, s, hbranch, hs, hw, -, rfl⟩ := singleIf_shape h
  have hlines {l : Nat} {s' : Stmt} (hl : code[l]? = some s') (hge : line ≤ l)
      (hle : l ≤ line + 1) : s' = .branch cond (line + 1) (line + 2) ∨ s' = s := by
    by_cases heq : l = line
    · rw [heq, hbranch] at hl
      exact .inl (Option.some.inj hl).symm
    · rw [show l = line + 1 from by omega, hs] at hl
      exact .inr (Option.some.inj hl).symm
  refine ⟨⟨hfits, rfl, fun t ht ↦ (by cases ht), ?_⟩, ?_⟩
  · intro l s' hl hge hle t ht
    rcases hlines hl hge hle with rfl | rfl
    · simp only [Stmt.targets, List.mem_cons, List.not_mem_nil, or_false] at ht
      simp only
      omega
    · simp only [Stmt.targets, Code.targets, List.append_nil]
      exact .inl ht
  · intro l s' hl hge hle
    rcases hlines hl hge hle with rfl | rfl
    · rfl
    · exact hw

theorem tidy_forLoop (h : forLoopAt ip code line (code.drop line) = some f) :
    f.Tidy code ∧ f.SparesSkips ip code := by
  have hfits : f.Fits code := fits_of_foldAt? (p := forLoop) h
  obtain ⟨var, init, cond, body, hvar, hassign, hloop, hquiet, -, rfl⟩ := forLoop_shape h
  have hlines {l : Nat} {s : Stmt} (hl : code[l]? = some s) (hge : line ≤ l)
      (hle : l ≤ line + 1) : s.transfers ip = false := by
    by_cases heq : l = line
    · rw [heq, hassign] at hl
      cases hl
      simpa [Stmt.transfers] using hvar
    · rw [show l = line + 1 from by omega, hloop] at hl
      cases hl
      exact hquiet
  refine ⟨⟨hfits, rfl, fun t ht ↦ (by cases ht), ?_⟩, ?_⟩
  · intro l s hl hge hle t ht
    rw [s.targets_eq_nil (hlines hl hge hle)] at ht
    cases ht
  · intro l s hl hge hle
    exact Stmt.writesPointer_eq_false (hlines hl hge hle)

theorem tidy_doWhile (h : doWhileAt ip code line (code.drop line) = some f) :
    f.Tidy code ∧ f.SparesSkips ip code := by
  have hfits : f.Fits code := fits_of_foldAt? (p := doWhile) h
  obtain ⟨cond, head, body, hlt, hbody, rfl, hback, hquiet, -, rfl⟩ := doWhile_shape h
  have hlines {l : Nat} {s : Stmt} (hl : code[l]? = some s) (hge : head ≤ l)
      (hle : l ≤ head + body.length) :
      s = .branch cond (head + body.length + 1) head ∨ s.transfers ip = false := by
    by_cases heq : l = head + body.length
    · rw [heq, hback] at hl
      exact .inl (Option.some.inj hl).symm
    · have hin : l - head < body.length := by omega
      have hs := hbody (l - head) _ (List.getElem?_eq_getElem hin)
      rw [show head + (l - head) = l from by omega, hl] at hs
      rw [Code.transfers_eq_any, List.any_eq_false] at hquiet
      rw [Option.some.inj hs]
      exact .inr (Bool.eq_false_iff.mpr (hquiet _ (List.getElem_mem hin)))
  refine ⟨⟨hfits, rfl, fun t ht ↦ (by cases ht), ?_⟩, ?_⟩
  · intro l s hl hge hle t ht
    simp only at hge hle ⊢
    rcases hlines hl hge (by omega) with rfl | hs
    · simp only [Stmt.targets, List.mem_cons, List.not_mem_nil, or_false] at ht
      omega
    · rw [s.targets_eq_nil hs] at ht
      cases ht
  · intro l s hl hge hle
    simp only at hge hle
    rcases hlines hl hge (by omega) with rfl | hs
    · rfl
    · exact Stmt.writesPointer_eq_false hs

theorem tidy_of_find? {p : Pattern} (hp : p ≠ ifElse) (h : p.find? ip code = some f) :
    f.Tidy code ∧ f.SparesSkips ip code := by
  obtain ⟨line, -, hf⟩ := exists_of_firstFrom h
  rw [Nat.zero_add] at hf
  cases p with
  | ifElse => exact absurd rfl hp
  | singleIf => exact tidy_singleIf hf
  | forLoop => exact tidy_forLoop hf
  | doWhile => exact tidy_doWhile hf

end Pattern

namespace Code

variable {ip : Reg}

/-- **Where nothing can be fused, no later fold takes a skip away.** So if recovered code has none,
there was none. -/
theorem plain_of_recover (code : Code) (hnone : Pattern.ifElse.find? ip code = none)
    (hplain : ∀ s ∈ Code.recover ip code, s.writesPointer ip = false) :
    ∀ s ∈ code, s.writesPointer ip = false := by
  cases h : Recover.step? ip code with
  | none => rwa [recover_of_none h] at hplain
  | some pc =>
    obtain ⟨p, code'⟩ := pc
    have hlt := Recover.length_lt_of_step? h
    obtain ⟨f, hf, hcode'⟩ := Option.map_eq_some_iff.mp (Recover.foldFirst?_of_step? h)
    -- the other folds make nothing that could be fused, so this stays so to the end
    have hp : p ≠ .ifElse := by
      rintro rfl
      rw [hnone] at hf
      cases hf
    obtain ⟨htidy, hspares⟩ := Pattern.tidy_of_find? hp hf
    rw [recover_of_some h] at hplain
    refine hspares.plain_of_apply htidy.fits ?_
    rw [hcode']
    exact plain_of_recover code' (hcode' ▸ htidy.find?_ifElse_apply hnone) hplain
termination_by code.length

end Code

/-! ## Fusions -/

namespace Code.SkipAt

variable {ip : Reg} {code : Code} {line target : Nat} {cond : Cond} {flag : Reg}

theorem tidy (h : SkipAt ip code line cond flag target) :
    (Fold.fusion line cond target).Tidy code := by
  refine ⟨⟨Nat.succ_pos 1, h.add_two_lt⟩, rfl, fun t ht ↦ (by cases ht), ?_⟩
  intro l s hl hge hle t ht
  simp only [Fold.fusion] at hge hle ⊢
  have hl' : l = line ∨ l = line + 1 ∨ l = line + 2 := by omega
  rcases hl' with rfl | rfl | rfl
  · rw [h.compare] at hl
    cases hl
    cases ht
  · rw [h.skip] at hl
    cases hl
    cases ht
  · rw [h.jump] at hl
    cases hl
    simp only [Stmt.targets, List.mem_cons, List.not_mem_nil, or_false] at ht ⊢
    exact .inl (.inr ht)

/-- The skip that a fusion takes away was in its place, so if the rest is guarded, all is. -/
theorem guarded_of_apply (h : SkipAt ip code line cond flag target)
    (hg : Guarded ip ((Fold.fusion line cond target).apply code)) : Guarded ip code := by
  intro l s hl hw
  by_cases hl₁ : l = line + 1
  · exact ⟨line, cond, flag, target, hl₁, h⟩
  have hl₀ : l ≠ line := by
    rintro rfl
    rw [h.compare] at hl
    cases hl
    cases hw
  have hl₂ : l ≠ line + 2 := by
    rintro rfl
    rw [h.jump] at hl
    cases hl
    cases hw
  have hk : (Fold.fusion line cond target).Keeps l := by
    simp only [Fold.Keeps, Fold.fusion]
    omega
  -- the skip is still there after the fusion, and its place was there before
  have hget := Fold.getElem?_apply h.tidy.fits hk hl₀
  rw [hl, Option.map_some] at hget
  obtain ⟨start', cond', flag', target', heq, hs⟩ :=
    hg _ _ hget (by rw [Stmt.writesPointer_mapTargets, hw])
  obtain ⟨start, target'', hks, hne, -, -, rfl, -, hs⟩ := h.tidy.skipAt_of_apply hs
  rw [← hks.renumber_succ hne] at heq
  exact ⟨start, cond', flag', target'', hk.renumber_inj (hks.succ hne) heq, hs⟩

end Code.SkipAt

end Unjump
