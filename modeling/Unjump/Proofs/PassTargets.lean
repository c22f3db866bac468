import Mathlib.Data.List.Basic
import Mathlib.Data.Nat.Find
import Mathlib.Data.Nat.Init
import Unjump.Proofs.Covering
import Unjump.Proofs.Nesting

/-!
# Where the passes send targets

Either pass edits code in many places at once and moves all targets at the end, by counting the
edits before the line a target named. What this comes to is read off the lines here, for code of any
shape: flat or structured, with targets in bodies and past the end.

## Lines that go

A target of a line that is kept names that line, written shorter. A target of a dropped line names
the next line that is kept, across a whole run of dropped ones, and leaves the code if there is none
(`Stores.Retargets.next`). No dropped statement has targets, so none is lost.

## Lines that come in

A target names the guard of its line if one was put in, and the line otherwise. The sum of line and
guards is a 64-bit number, so this is said of the targets for which it does not wrap. There are
never more guards before a line than lines, and lifted jumps go to lines below `2 ^ 63`; in
decompiling nothing wraps.
-/

namespace Unjump

/-! ## Dropped lines -/

namespace Stores

variable {code : Code}

/-- What condensing does to the lines of code and to the targets that name them. -/
structure Retargets (code : Code) : Prop where
  increasing : (deleted code).Pairwise (· < ·)
  /-- The lines that are not dropped stay, in their order. -/
  kept : condense .renumber code = (code.zipIdx.filter fun x ↦ x.2 ∉ deleted code).map fun x ↦
    (shorten x.1).mapTargets (renumber (deleted code))
  /-- No more lines are dropped before a line than there are. -/
  enough : ∀ t, Lines.below (deleted code) t ≤ t
  targets : Code.targets (condense .renumber code) =
    (Code.targets code).map fun t ↦ t - Lines.below (deleted code) t
  names : ∀ t s, code[t]? = some s → t ∉ deleted code →
    (condense .renumber code)[t - Lines.below (deleted code) t]? =
      some ((shorten s).mapTargets (renumber (deleted code)))
  /-- A target of a dropped line names the first line behind it that is kept, or the end. -/
  next : ∀ t ∈ deleted code, ∃ u, t < u ∧ u ≤ code.length ∧ u ∉ deleted code ∧
    (∀ k, t ≤ k → k < u → k ∈ deleted code) ∧
    (condense .renumber code)[t - Lines.below (deleted code) t]? =
      (code[u]?).map fun s ↦ (shorten s).mapTargets (renumber (deleted code))
  leaving : ∀ t, code.length ≤ t →
    (condense .renumber code).length ≤ t - Lines.below (deleted code) t

theorem scan_eq_map_zipIdx (code : Code) :
    scan .nothing code = code.zipIdx.map fun x ↦
      if x.2 ∈ deleted code then none else some (shorten x.1) := by
  refine List.ext_getElem? fun n ↦ ?_
  rw [List.getElem?_map, List.getElem?_zipIdx, Nat.zero_add]
  rcases hs : code[n]? with _ | s
  · rw [getElem?_scan, hs, Option.map_none, Option.map_none, Option.map_none]
  · rw [Option.map_some, Option.map_some]
    by_cases hn : n ∈ deleted code
    · obtain ⟨s', hs', hnone⟩ := mem_deleted_iff.mp hn
      rw [if_pos hn, getElem?_scan, hs', Option.map_some, hnone]
    · rw [if_neg hn, getElem?_scan_of_not_mem hs hn]

/-- **What condensing keeps are the lines that it does not drop, in their order.** -/
theorem condense_renumber_eq (code : Code) :
    condense .renumber code = (code.zipIdx.filter fun x ↦ x.2 ∉ deleted code).map fun x ↦
      (shorten x.1).mapTargets (renumber (deleted code)) := by
  have hkept : (scan .nothing code).filterMap id =
      (code.zipIdx.filter fun x ↦ x.2 ∉ deleted code).map fun x ↦ shorten x.1 := by
    rw [scan_eq_map_zipIdx, List.filterMap_map, ← List.filterMap_eq_map, List.filterMap_filter]
    refine List.filterMap_congr fun x _ ↦ ?_
    by_cases hx : x.2 ∈ deleted code <;> simp [hx]
  rw [condense, hkept, Code.mapTargets_eq_map, List.map_map]
  rfl

/-- Dropped statements are assignments, so all targets are kept. -/
theorem targets_filterMap_scan (known : Known) (code : Code) :
    Code.targets ((scan known code).filterMap id) = Code.targets code := by
  induction code generalizing known with
  | nil => rfl
  | cons s rest ih =>
    have hscan : scan known (s :: rest) = (visit known s).1 :: scan (visit known s).2 rest := rfl
    rw [hscan, Code.targets]
    rcases hv : (visit known s).1 with _ | s'
    · rw [List.filterMap_cons_none rfl, ih]
      rcases visit_cases known s with ⟨i, e, rfl, -⟩ | ⟨i, e, rfl, -⟩ | ⟨hsome, -⟩
      · rfl
      · rfl
      · rw [hv] at hsome
        contradiction
    · have hsome : (visit known s).1.isSome = true := by rw [hv, Option.isSome_some]
      have hs' := visit_fst_of_isSome hsome
      rw [hv, Option.some.injEq] at hs'
      rw [List.filterMap_cons_some (f := id) rfl, Code.targets, ih, hs', targets_shorten]

/-- A run of dropped lines goes where the line behind it goes. -/
theorem renumber_eq_of_dropped {t u : Nat} (hle : t ≤ u)
    (h : ∀ k, t ≤ k → k < u → k ∈ deleted code) :
    renumber (deleted code) t = renumber (deleted code) u := by
  induction u, hle using Nat.le_induction with
  | base => rfl
  | succ u hle ih =>
    rw [renumber_succ_of_mem (h u hle (Nat.lt_succ_self u))]
    exact ih fun k hk hk' ↦ h k hk (Nat.lt_succ_of_lt hk')

/-- Behind every line there is one that is kept, or the end. -/
theorem exists_first_kept {t : Nat} (ht : t ∈ deleted code) :
    ∃ u, t < u ∧ u ≤ code.length ∧ u ∉ deleted code ∧
      ∀ k, t ≤ k → k < u → k ∈ deleted code := by
  have inside {k : Nat} (hk : k ∈ deleted code) : k < code.length := by
    obtain ⟨s, hs, -⟩ := mem_deleted_iff.mp hk
    exact (List.getElem?_eq_some_iff.mp hs).1
  have hex : ∃ u, t ≤ u ∧ u ∉ deleted code :=
    ⟨code.length, Nat.le_of_lt (inside ht), fun hk ↦ Nat.lt_irrefl _ (inside hk)⟩
  obtain ⟨hle, hkept⟩ := Nat.find_spec hex
  have hdropped : ∀ k, t ≤ k → k < Nat.find hex → k ∈ deleted code := fun k hk hlt ↦
    not_not.mp fun hk' ↦ Nat.find_min hex hlt ⟨hk, hk'⟩
  refine ⟨Nat.find hex, lt_of_le_of_ne hle fun heq ↦ hkept (heq ▸ ht), ?_, hkept, hdropped⟩
  -- the end is kept, so the first kept line is not behind it
  exact not_lt.mp fun hlt ↦ Nat.lt_irrefl _ (inside (hdropped _ (Nat.le_of_lt (inside ht)) hlt))

/-- **Condensing sends every target where the lines went.** -/
theorem retargets (code : Code) : Retargets code where
  increasing := Lines.pairwise_marked _ _
  kept := condense_renumber_eq code
  enough t := (Lines.below_le _ _ t).1
  targets := by
    rw [condense, Code.targets_mapTargets, targets_filterMap_scan]
    rfl
  names t s hs ht := getElem?_condense hs ht
  next t ht := by
    obtain ⟨u, hlt, hle, hkept, hdropped⟩ := exists_first_kept ht
    refine ⟨u, hlt, hle, hkept, hdropped, ?_⟩
    rw [← renumber, renumber_eq_of_dropped (Nat.le_of_lt hlt) hdropped]
    rcases hs : code[u]? with _ | s
    · exact getElem?_condense_of_none hs
    · exact getElem?_condense hs hkept
  leaving t ht :=
    List.getElem?_eq_none_iff.mp (getElem?_condense_of_none (List.getElem?_eq_none_iff.mpr ht))

end Stores

/-! ## Guards -/

namespace Skips

variable {ip : Reg} {code : Code}

/-- What guarding does to the lines of code and to the targets that name them. -/
structure Retargets (ip : Reg) (code : Code) : Prop where
  increasing : (inserted ip code).Pairwise (· < ·)
  /-- Every line stays, in its order, behind its guard if it got one. -/
  kept : guardAll ip code = code.zipIdx.flatMap fun x ↦
    (if x.2 ∈ inserted ip code then (skip? ip x.1).toList.map guardOf else []) ++
      [x.1.mapTargets (renumber (inserted ip code))]
  targets : Code.targets (guardAll ip code) =
    (Code.targets code).map (renumber (inserted ip code))
  /-- A target moves by the guards before its line, if the sum is a 64-bit number. -/
  moves : ∀ t, t + Lines.below (inserted ip code) t < UInt64.size →
    renumber (inserted ip code) t = t + Lines.below (inserted ip code) t
  /-- What was guarded is a skip, and its line now has the guard, with the skip behind it. -/
  guards : ∀ t ∈ inserted ip code, ∃ x, code[t]? = some (.update .add ip (.reg x)) ∧
    (guardAll ip code)[t + Lines.below (inserted ip code) t]? = some (guardOf x) ∧
    (guardAll ip code)[t + Lines.below (inserted ip code) t + 1]? =
      some (.update .add ip (.reg x))
  names : ∀ t, t ∉ inserted ip code →
    (guardAll ip code)[t + Lines.below (inserted ip code) t]? =
      (code[t]?).map (Stmt.mapTargets (renumber (inserted ip code)))
  leaving : ∀ t, code.length ≤ t →
    (guardAll ip code).length ≤ t + Lines.below (inserted ip code) t

theorem zip_unguarded (ip : Reg) (code : Code) :
    (unguarded ip code).zip code = code.zipIdx.map fun x ↦ (guardAt ip code x.2, x.1) := by
  refine List.ext_getElem? fun n ↦ ?_
  rw [List.getElem?_map, List.getElem?_zipIdx, Nat.zero_add, List.zip,
    List.getElem?_zipWith, getElem?_unguarded]
  rcases code[n]? with _ | s <;> rfl

/-- The guard of a line is that of the skip there. -/
theorem guardAt_eq {n : Nat} {s : Stmt} (hs : code[n]? = some s) :
    guardAt ip code n = if n ∈ inserted ip code then skip? ip s else none := by
  by_cases hn : n ∈ inserted ip code
  · obtain ⟨x, hx⟩ := Option.isSome_iff_exists.mp (mem_inserted_iff.mp hn)
    rw [if_pos hn, hx, eq_of_guardAt hs hx, skip?, if_pos rfl]
  · rw [if_neg hn, ← Option.not_isSome_iff_eq_none]
    exact fun hsome ↦ hn (mem_inserted_iff.mpr hsome)

/-- **Guarded code has the lines of the code in their order, each behind its guard.** -/
theorem guardAll_eq (ip : Reg) (code : Code) :
    guardAll ip code = code.zipIdx.flatMap fun x ↦
      (if x.2 ∈ inserted ip code then (skip? ip x.1).toList.map guardOf else []) ++
        [x.1.mapTargets (renumber (inserted ip code))] := by
  rw [guardAll, zip_unguarded, List.flatMap_map, Code.mapTargets_eq_map, List.map_flatMap]
  refine List.flatMap_congr fun x hx ↦ ?_
  obtain ⟨s, n⟩ := x
  have hs : code[n]? = some s := List.mk_mem_zipIdx_iff_getElem?.mp hx
  rw [guardAt_eq hs]
  by_cases hn : n ∈ inserted ip code
  · rw [if_pos hn, if_pos hn]
    rcases skip? ip s with _ | x <;> rfl
  · rw [if_neg hn, if_neg hn]
    rfl

theorem targets_guardAll (ip : Reg) (code : Code) :
    Code.targets (guardAll ip code) = (Code.targets code).map (renumber (inserted ip code)) := by
  have hblock (pair : Option Reg × Stmt) : Code.targets (withGuard pair) = pair.2.targets := by
    obtain ⟨_ | x, s⟩ := pair <;> simp [withGuard, Code.targets, guardOf, Stmt.targets]
  have hlen : (unguarded ip code).length = code.length := length_scan ip true code
  have hsnd : ((unguarded ip code).zip code).map Prod.snd = code :=
    List.map_snd_zip (Nat.le_of_eq hlen.symm)
  rw [guardAll, Code.targets_mapTargets, Code.targets_eq_flatMap, List.flatMap_assoc]
  simp only [← Code.targets_eq_flatMap, hblock]
  rw [← List.flatMap_map, hsnd, ← Code.targets_eq_flatMap]

/-- **Guarding sends every target where the lines went.** -/
theorem retargets (ip : Reg) (code : Code) : Retargets ip code where
  increasing := Lines.pairwise_marked _ _
  kept := guardAll_eq ip code
  targets := targets_guardAll ip code
  moves t ht := Nat.mod_eq_of_lt ht
  guards t ht := by
    obtain ⟨x, hx⟩ := Option.isSome_iff_exists.mp (mem_inserted_iff.mp ht)
    rcases hs : code[t]? with _ | s
    · rw [guardAt, hs, Option.bind_none, ite_self] at hx
      contradiction
    · have hget := @getElem?_guardAll ip code t s hs
      rw [hx] at hget
      obtain rfl := eq_of_guardAt hs hx
      exact ⟨x, rfl, hget⟩
  names t ht := by
    rcases hs : code[t]? with _ | s
    · exact getElem?_guardAll_of_none hs
    · have hget := @getElem?_guardAll ip code t s hs
      rw [guardAt_eq hs, if_neg ht] at hget
      exact hget
  leaving t ht :=
    List.getElem?_eq_none_iff.mp (getElem?_guardAll_of_none (List.getElem?_eq_none_iff.mpr ht))

end Skips

/-! ## Lifted code -/

theorem Options.lt_of_mem_targets_condensed {p : Program} {lifted : Code} (o : Options)
    (hlift : p.lift = .ok lifted) : ∀ t ∈ Code.targets (o.condensed lifted), t < 2 ^ 63 := by
  have hlt := Code.lt_of_mem_targets fun s hs ↦ Program.lifted_of_mem hlift hs
  intro t ht
  unfold condensed at ht
  split at ht
  · obtain ⟨t₀, ht₀, hle⟩ := Stores.le_of_mem_targets_condense ht
    exact Nat.lt_of_le_of_lt hle (hlt t₀ ht₀)
  · exact hlt t ht

/-- No more guards than lines come before a line, so lines below `2 ^ 63` do not wrap. -/
theorem Skips.add_below_lt {ip : Reg} {code : Code} {t : Nat} (ht : t < 2 ^ 63) :
    t + Lines.below (inserted ip code) t < UInt64.size := by
  have hle : Lines.below (inserted ip code) t ≤ t := (Lines.below_le _ _ t).1
  have hsize : UInt64.size = 2 ^ 64 := rfl
  omega

/-- **Both passes retarget exactly**, on any code. The targets of lifted code, and of what the first
pass makes of it, stay within 64 bits in the second. -/
theorem Code.passes_retarget (ip : Reg) (code : Code) :
    Stores.Retargets code ∧ Skips.Retargets ip code ∧
      ∀ (p : Program) (lifted : Code), p.lift = .ok lifted → ∀ o : Options,
        ∀ t ∈ Code.targets (o.condensed lifted), t < 2 ^ 63 ∧
          t + Lines.below (Skips.inserted p.ip (o.condensed lifted)) t < UInt64.size := by
  refine ⟨Stores.retargets code, Skips.retargets ip code, fun p lifted hlift o t ht ↦ ?_⟩
  have hlt := o.lt_of_mem_targets_condensed hlift t ht
  exact ⟨hlt, Skips.add_below_lt hlt⟩

/-- Stores twice, and jumps back to a skip that gets a guard and out to a line past the end. -/
def Program.backToSkip : Program :=
  ⟨5, #[⟨.seti, 5, 0, 1⟩, ⟨.seti, 5, 0, 1⟩, ⟨.addr, 5, 2, 5⟩, ⟨.seti, 1, 0, 5⟩, ⟨.seti, 8, 0, 5⟩],
    by decide⟩

theorem Code.passes_retarget_backToSkip :
    let lifted : Code := [.assign 1 (.lit 5), .assign 1 (.lit 5),
      .assign 5 (.bin .add (.reg 5) (.reg 2)), .goto 2, .goto 9]
    let condensed := Options.condensed { targetPolicy := .renumber } lifted
    Program.backToSkip.lift = .ok lifted ∧ Code.targets condensed = [1, 8] ∧
      Code.targets (Skips.guardAll 5 condensed) = [1, 9] ∧
      8 + Lines.below (Skips.inserted 5 condensed) 8 < UInt64.size := by
  intro lifted condensed
  obtain ⟨hcondense, -, -⟩ := passes_retarget 5 lifted
  obtain ⟨-, hguard, hroom⟩ := passes_retarget 5 condensed
  have hcondensed : Code.targets condensed = [1, 8] := by
    rw [show condensed = Stores.condense .renumber lifted from rfl, hcondense.targets]
    decide
  have hlift : Program.backToSkip.lift = .ok lifted := rfl
  refine ⟨hlift, hcondensed, ?_, ?_⟩
  · rw [hguard.targets, hcondensed]
    decide
  · exact (hroom _ lifted hlift { targetPolicy := .renumber } 8 (by rw [hcondensed]; decide)).2

end Unjump
