import Unjump.Proofs.PassTargets

/-!
# A second round of a pass changes nothing

Either pass between lifting and folding reads code from its first line to its last and carries a
note along: the first what registers are known to hold, the second whether the line before was a
comparison. Applied to what it has made, a pass finds nothing to do. The reason is that the second
scan, of another list, has the same note at every statement that the first scan has put there.

## Stores

A statement that is kept is kept in its shortest form, and the shortest form is visited as the
statement was (`Stores.visit_shorten`). A statement that is dropped leaves the note as it found it,
so a scan that never sees the statement goes on alike (`Stores.scan_kept`).

## Guards

A guard is no skip, and the skip behind it follows a comparison. No other line has a new line before
it, the first one included, so what needed no guard needs none now (`Skips.scan_flatMap_withGuard`).

Targets move only at the end, and neither scan looks at them. A second round has no edits to count,
so it moves none: targets that the first round has left are 64-bit numbers.
-/

namespace Unjump

/-! ## Stores -/

namespace Stores

variable {known : Known}

/-- A statement is visited as its shortest form is. -/
theorem visit_shorten (known : Known) (s : Stmt) : visit known (shorten s) = visit known s := by
  rcases shorten_cases s with h | ⟨op, dest, value, value', rfl, h, -⟩
  · rw [h]
  · -- only an operation is written as an update, and what is known ends at either
    match value, h with
    | .bin op' lhs rhs, h =>
      have hvisit : visit known (.assign dest (.bin op' lhs rhs)) =
          (some (shorten (.assign dest (.bin op' lhs rhs))), .nothing) := rfl
      rw [hvisit, h]
      rfl

theorem eq_shorten_of_kept {s s' : Stmt} (h : (visit known s).1 = some s') : s' = shorten s := by
  have hsome : (visit known s).1.isSome = true := by rw [h, Option.isSome_some]
  exact Option.some.inj (h.symm.trans (visit_fst_of_isSome hsome))

theorem visit_of_dropped {s : Stmt} (h : (visit known s).1 = none) :
    visit known s = (none, known) := by
  rcases visit_cases known s with ⟨i, e, -, -, -, hv⟩ | ⟨i, e, -, -, -, hv⟩ | ⟨hsome, -⟩
  · exact hv
  · rw [hv] at h
    contradiction
  · rw [h] at hsome
    contradiction

theorem scan_cons (known : Known) (s : Stmt) (rest : Code) :
    scan known (s :: rest) = (visit known s).1 :: scan (visit known s).2 rest := rfl

/-- **What a scan has kept, a second scan keeps as it is.** -/
theorem scan_kept (known : Known) (code : Code) :
    scan known ((scan known code).filterMap id) = ((scan known code).filterMap id).map some := by
  induction code generalizing known with
  | nil => rfl
  | cons s rest ih =>
    rw [scan_cons]
    rcases hv : (visit known s).1 with _ | s'
    · rw [List.filterMap_cons_none rfl, visit_of_dropped hv]
      exact ih known
    · rw [List.filterMap_cons_some (f := id) rfl, List.map_cons, scan_cons, eq_shorten_of_kept hv,
        visit_shorten, ← eq_shorten_of_kept hv, hv, ih (visit known s).2]

theorem visit_mapTargets (f : Nat → Nat) (known : Known) (s : Stmt) :
    visit known (s.mapTargets f) =
      ((visit known s).1.map (Stmt.mapTargets f), (visit known s).2) := by
  cases s with
  | assign dest value =>
    -- neither an assignment nor its shortest form has targets
    have hself : (visit known (.assign dest value)).1.map (Stmt.mapTargets f) =
        (visit known (.assign dest value)).1 := by
      rcases hv : (visit known (.assign dest value)).1 with _ | s'
      · rfl
      · have hnone : s'.targets = [] := by
          rw [eq_shorten_of_kept hv, targets_shorten, Stmt.targets]
        rw [Option.map_some, Stmt.mapTargets_eq_self s' (by simp [hnone])]
    rw [hself]
    rfl
  | _ => rfl

theorem scan_mapTargets (f : Nat → Nat) (known : Known) (code : Code) :
    scan known (Code.mapTargets f code) =
      (scan known code).map (Option.map (Stmt.mapTargets f)) := by
  induction code generalizing known with
  | nil => rfl
  | cons s rest ih =>
    rw [Code.mapTargets, scan_cons, scan_cons, visit_mapTargets, List.map_cons, ih]

/-- Condensed code is scanned as it is, whatever became of its targets. -/
theorem scan_condense (policy : TargetPolicy) (code : Code) :
    scan .nothing (condense policy code) = (condense policy code).map some := by
  rcases policy with _ | _
  · exact scan_kept .nothing code
  · rw [condense, scan_mapTargets, scan_kept, Code.mapTargets_eq_map, List.map_map, List.map_map]
    rfl

theorem deleted_condense (policy : TargetPolicy) (code : Code) :
    deleted (condense policy code) = [] := by
  refine List.eq_nil_iff_forall_not_mem.mpr fun n hn ↦ ?_
  obtain ⟨s?, hs, hnone⟩ := Lines.mem_marked_iff.mp hn
  rw [scan_condense, List.getElem?_map] at hs
  obtain ⟨s, -, rfl⟩ := Option.map_eq_some_iff.mp hs
  contradiction

/-- **Condensing twice is condensing once**, even if targets are treated differently the second
time. -/
theorem condense_condense (policy policy' : TargetPolicy) (code : Code) :
    condense policy' (condense policy code) = condense policy code := by
  have hkept : (scan .nothing (condense policy code)).filterMap id = condense policy code := by
    rw [scan_condense, List.filterMap_map]
    exact List.filterMap_some
  rcases policy' with _ | _
  · exact hkept
  · rw [condense, hkept, deleted_condense]
    exact Code.mapTargets_eq_self _ fun t _ ↦ rfl

end Stores

/-! ## Guards -/

namespace Skips

variable {ip : Reg}

theorem skip?_mapTargets (f : Nat → Nat) (s : Stmt) : skip? ip (s.mapTargets f) = skip? ip s := by
  cases s <;> rfl

theorem isCompare_mapTargets (f : Nat → Nat) (s : Stmt) :
    (s.mapTargets f).isCompare = s.isCompare := by
  cases s <;> rfl

theorem scan_mapTargets (f : Nat → Nat) (afterCompare : Bool) (code : Code) :
    scan ip afterCompare (Code.mapTargets f code) = scan ip afterCompare code := by
  induction code generalizing afterCompare with
  | nil => rfl
  | cons s rest ih =>
    rw [Code.mapTargets, scan, scan, skip?_mapTargets, isCompare_mapTargets, ih]

/-- **Nothing is left to guard** in code with its guards. -/
theorem scan_flatMap_withGuard (afterCompare : Bool) (code : Code) :
    ∀ g ∈ scan ip afterCompare (((scan ip afterCompare code).zip code).flatMap withGuard),
      g = none := by
  induction code generalizing afterCompare with
  | nil => simp [scan]
  | cons s rest ih =>
    rw [scan, List.zip_cons_cons, List.flatMap_cons]
    rcases hg : (if afterCompare then none else skip? ip s) with _ | r
    · rw [withGuard, List.singleton_append, scan, hg, List.forall_mem_cons]
      exact ⟨rfl, ih s.isCompare⟩
    · -- the guard is no skip, and it is a comparison
      rw [withGuard, List.cons_append, List.singleton_append, scan, scan, List.forall_mem_cons,
        List.forall_mem_cons]
      exact ⟨ite_self none, rfl, ih s.isCompare⟩

theorem inserted_guardAll (ip : Reg) (code : Code) : inserted ip (guardAll ip code) = [] := by
  refine List.eq_nil_iff_forall_not_mem.mpr fun n hn ↦ ?_
  obtain ⟨g, hg, hsome⟩ := Lines.mem_marked_iff.mp hn
  rw [unguarded, guardAll, scan_mapTargets] at hg
  rw [scan_flatMap_withGuard true code g (List.mem_of_getElem? hg)] at hsome
  contradiction

theorem lt_of_mem_targets_guardAll {code : Code} {t : Nat}
    (ht : t ∈ Code.targets (guardAll ip code)) : t < UInt64.size := by
  rw [targets_guardAll] at ht
  obtain ⟨t₀, -, rfl⟩ := List.mem_map.mp ht
  exact Nat.mod_lt _ (by decide)

/-- **Guarding twice is guarding once.** -/
theorem guardAll_guardAll (ip : Reg) (code : Code) :
    guardAll ip (guardAll ip code) = guardAll ip code :=
  guardAll_of_inserted (inserted_guardAll ip code) fun _ ↦ lt_of_mem_targets_guardAll

end Skips

/-! ## Both passes -/

/-- **Both passes are idempotent**, on any code: a second round drops and inserts nothing, and gives
back what it was given. -/
theorem Code.passes_idempotent (ip : Reg) (policy : TargetPolicy) (code : Code) :
    (Stores.deleted (Stores.condense policy code) = [] ∧
      Stores.condense policy (Stores.condense policy code) = Stores.condense policy code) ∧
    (Skips.inserted ip (Skips.guardAll ip code) = [] ∧
      Skips.guardAll ip (Skips.guardAll ip code) = Skips.guardAll ip code) :=
  ⟨⟨Stores.deleted_condense policy code, Stores.condense_condense policy policy code⟩,
    ⟨Skips.inserted_guardAll ip code, Skips.guardAll_guardAll ip code⟩⟩

/-- The first round has something to drop, and something to insert. -/
example :
    Stores.deleted [.assign 2 (.reg 1), .assign 2 (.reg 1), .goto 2] = [1] ∧
      Stores.condense .renumber [.assign 2 (.reg 1), .assign 2 (.reg 1), .goto 2] =
        [.assign 2 (.reg 1), .goto 1] ∧
      Skips.inserted 5 [.halt, .update .add 5 (.reg 1), .goto 2] = [1] ∧
      Skips.guardAll 5 [.halt, .update .add 5 (.reg 1), .goto 2] =
        [.halt, .compare ⟨.eq, .reg 1, .lit 1⟩ 1, .update .add 5 (.reg 1), .goto 3] :=
  ⟨rfl, rfl, rfl, rfl⟩

end Unjump
