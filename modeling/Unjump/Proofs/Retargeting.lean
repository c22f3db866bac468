import Unjump.Proofs.Fusion

/-!
# Every transfer goes where it went

A fold takes lines away, so the transfers that stay have to be given new numbers. They go wrong in
one way only: a transfer to a line that is gone has no line left to name. The search for folds
passes over the stretches for which this would happen, each pattern with a check of its own, and
`Pattern.sealed_of_find?` says that the four checks come to the same.

## What is renumbered

`Fold.Retargets` is all that a fold does to code, in terms of lines: the statements that are left
stand in the order they stood in, a target stays if it was not behind the start of the fold and
moves up by the number of lines that went otherwise, and nothing else changes. That a transfer
still names the statement it named, and that one past the end still leaves the code, follow from
this, wherever the targets of the code may have pointed.
-/

namespace Unjump

namespace Fold

/-- What is left comes from a line outside of the fold, or is the new statement. -/
theorem mem_surviving_iff {f : Fold} {code : Code} {s : Stmt} :
    s ∈ f.surviving code ↔
      s = f.stmt ∨
        ∃ line, (line < f.start ∨ f.start + f.removed < line) ∧ code[line]? = some s := by
  rw [surviving, List.mem_append, List.mem_cons]
  constructor
  · rintro (hs | rfl | hs)
    · obtain ⟨i, hi⟩ := List.mem_iff_getElem?.mp hs
      rw [List.getElem?_take] at hi
      split at hi
      · next hlt => exact .inr ⟨i, .inl hlt, hi⟩
      · cases hi
    · exact .inl rfl
    · obtain ⟨i, hi⟩ := List.mem_iff_getElem?.mp hs
      rw [List.getElem?_drop] at hi
      exact .inr ⟨_, .inr (by omega), hi⟩
  · rintro (rfl | ⟨line, hline | hline, hs⟩)
    · exact .inr (.inl rfl)
    · refine .inl (List.mem_of_getElem? (i := line) ?_)
      rwa [List.getElem?_take_of_lt hline]
    · refine .inr (.inr (List.mem_of_getElem? (i := line - (f.start + f.removed + 1)) ?_))
      rwa [List.getElem?_drop, Nat.add_sub_cancel' hline]

/-- How the code after a fold comes from the code before it. -/
structure Retargets (f : Fold) (code code' : Code) : Prop where
  /-- Some line goes, and the stretch lies within the code. -/
  fits : 0 < f.removed ∧ f.start + f.removed < code.length
  length : code'.length + f.removed = code.length
  /-- No transfer that is left, in a body or not, went to a line that goes. -/
  spared : ∀ t ∈ Code.targets (f.surviving code), t ≤ f.start ∨ f.start + f.removed < t
  targets : Code.targets code' =
    (Code.targets (f.surviving code)).map fun t ↦ if t ≤ f.start then t else t - f.removed
  /-- The line of the fold has the new statement. -/
  folded : code'[f.start]? = some (f.stmt.mapTargets f.renumber)
  before : ∀ line < f.start, code'[line]? = (code[line]?).map (Stmt.mapTargets f.renumber)
  behind : ∀ line, f.start + f.removed < line →
    code'[line - f.removed]? = (code[line]?).map (Stmt.mapTargets f.renumber)
  /-- A transfer to a statement outside of the fold still names that statement. -/
  names : ∀ t ∈ Code.targets (f.surviving code), t ≠ f.start →
    code'[f.renumber t]? = (code[t]?).map (Stmt.mapTargets f.renumber)
  /-- Targets stay within the code, or just behind it. -/
  within : ∀ t ∈ Code.targets (f.surviving code), t ≤ code.length → f.renumber t ≤ code'.length
  /-- Targets past the end stay past the end. -/
  leaving : ∀ t ∈ Code.targets (f.surviving code), code.length ≤ t → code'.length ≤ f.renumber t

/-- A fold retargets exactly if no transfer that is left goes to a line that goes. -/
theorem retargets_of_keeps {f : Fold} {code : Code} (hfits : f.Fits code)
    (hkeeps : ∀ t ∈ Code.targets (f.surviving code), f.Keeps t) :
    f.Retargets code (f.apply code) := by
  have hlength := length_apply hfits
  refine
    { fits := hfits
      length := hlength
      spared := hkeeps
      targets := ?_
      folded := getElem?_apply_start hfits
      before := fun line hline ↦ ?_
      behind := fun line hline ↦ ?_
      names := fun t ht hne ↦ getElem?_apply hfits (hkeeps t ht) hne
      within := fun t ht hle ↦ ?_
      leaving := fun t ht hle ↦ ?_ }
  · rw [apply_eq_mapTargets, Code.targets_mapTargets]
    refine List.map_congr_left fun t _ ↦ ?_
    by_cases hle : t ≤ f.start
    · rw [renumber_of_le hle, if_pos hle]
    · rw [renumber, if_pos (Nat.lt_of_not_le hle), if_neg hle]
  · have hget := getElem?_apply hfits (.inl (Nat.le_of_lt hline)) (Nat.ne_of_lt hline)
    rwa [renumber_of_le (Nat.le_of_lt hline)] at hget
  · have hget := getElem?_apply hfits (.inr hline) (by omega)
    rwa [renumber_of_lt hline] at hget
  · have hlt := hfits.2
    rcases hkeeps t ht with hk | hk
    · rw [renumber_of_le hk]
      omega
    · rw [renumber_of_lt hk]
      omega
  · have hlt := hfits.2
    rw [renumber_of_lt (by omega)]
    omega

end Fold

namespace Pattern

variable {ip : Reg} {code : Code} {f : Fold}

/-- **No pattern folds a stretch that is entered from outside by a transfer.** -/
theorem sealed_of_find? {p : Pattern} (hf : p.find? ip code = some f) : f.Sealed code := by
  by_cases hp : p = ifElse
  · subst hp
    obtain ⟨line, cond, flag, target, hs, rfl⟩ := Code.exists_skipAt_of_find? hf
    intro line' s' hs' _ _ t ht
    exact hs.keeps_target (Code.mem_targets_iff.mpr ⟨line', s', hs', ht⟩)
  · exact (sound_of_find? hp hf).isSealed

/-- What a fold puts in transfers control to no line that goes, a new branch included. -/
theorem keeps_of_mem_targets {p : Pattern} (hf : p.find? ip code = some f) {t : Nat}
    (ht : t ∈ f.stmt.targets) : f.Keeps t := by
  by_cases hp : p = ifElse
  · subst hp
    obtain ⟨line, cond, flag, target, hs, rfl⟩ := Code.exists_skipAt_of_find? hf
    rcases List.mem_cons.mp ht with rfl | ht
    · exact Fold.keeps_after _
    · rw [List.mem_singleton.mp ht]
      exact hs.keeps_target hs.target_mem
  · exact (sound_of_find? hp hf).kept t ht

/-- **Folding renumbers exactly.** Code in which the pattern is not found is left as it is. Else it
is the code after a fold, and every transfer that is left goes where it went. -/
theorem foldInPlace_retargets (ip : Reg) (p : Pattern) (code : Code) :
    (p.find? ip code = none ∧ p.foldInPlace ip code = (false, code)) ∨
      ∃ f code', p.find? ip code = some f ∧ p.foldInPlace ip code = (true, code') ∧
        f.Retargets code code' := by
  unfold foldInPlace foldFirst?
  cases hf : p.find? ip code with
  | none => exact .inl ⟨rfl, rfl⟩
  | some f =>
    refine .inr ⟨f, f.apply code, rfl, rfl, Fold.retargets_of_keeps (fits_of_find? hf) ?_⟩
    intro t ht
    rw [Code.targets_eq_flatMap, List.mem_flatMap] at ht
    obtain ⟨s, hs, ht⟩ := ht
    rcases Fold.mem_surviving_iff.mp hs with rfl | ⟨line, hline, hs⟩
    · exact keeps_of_mem_targets hf ht
    · exact sealed_of_find? hf line s hs (hline.imp_left Nat.le_of_lt) (by omega) t ht

/-- The stop goes into the branch around it. A jump to the branch stays, and one past the end stays
past the end. -/
example : singleIf.foldInPlace 5
    [.branch ⟨.gt, .reg 1, .lit 0⟩ 1 2, .halt, .goto 0, .goto 4] =
      (true, [.ifThen ⟨.gt, .reg 1, .lit 0⟩ [.halt], .goto 0, .goto 3]) := rfl

end Pattern

end Unjump
