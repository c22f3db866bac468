import Unjump.Proofs.Dropping

/-!
# Where lines go when guards are put in

A guard goes directly before the skip it guards, and a target moves on by the number of guards
before the line it named. So every line has its statement where the line goes, or its guard there
and its statement behind it (`Skips.getElem?_guardAll`).

Targets are 64-bit numbers and wrap. `Skips.shifted` is where a line goes before wrapping, and
`Skips.renumber_eq_shifted` says that the two are the same as long as there is room for the guards.
-/

namespace Unjump.Skips

variable {ip : Reg} {code : Code} {n : Nat}

/-! ## The skips that need a guard -/

/-- The guard that a line needs, by the line before it. The first line needs none. -/
def guardAt (ip : Reg) (code : Code) (n : Nat) : Option Reg :=
  if (code.take n).getLast?.all Stmt.isCompare then none else (code[n]?).bind (skip? ip)

theorem getElem?_unguarded (ip : Reg) (code : Code) (n : Nat) :
    (unguarded ip code)[n]? = (code[n]?).map fun _ ↦ guardAt ip code n := by
  have general (afterCompare : Bool) : (scan ip afterCompare code)[n]? = (code[n]?).map fun s ↦
      if ((code.take n).getLast?.map Stmt.isCompare).getD afterCompare then none
      else skip? ip s := by
    induction code generalizing n afterCompare with
    | nil => rfl
    | cons s rest ih =>
      cases n with
      | zero => rfl
      | succ n =>
        have hlast : (((s :: rest).take (n + 1)).getLast?.map Stmt.isCompare).getD afterCompare =
            ((rest.take n).getLast?.map Stmt.isCompare).getD s.isCompare := by
          rw [List.take_succ_cons, List.getLast?_cons]
          cases (rest.take n).getLast? <;> rfl
        rw [hlast]
        exact ih (n := n) s.isCompare
  rw [unguarded, general]
  cases hs : code[n]? with
  | none => rfl
  | some s =>
    rw [Option.map_some, Option.map_some, guardAt, hs, Option.bind_some]
    cases (code.take n).getLast? <;> rfl

theorem guardAt_succ {s : Stmt} (hs : code[n]? = some s) :
    guardAt ip code (n + 1) =
      if s.isCompare then none else (code[n + 1]?).bind (skip? ip) := by
  rw [guardAt, List.take_add_one, hs, Option.toList_some, List.getLast?_concat, Option.all_some]

theorem mem_inserted_iff : n ∈ inserted ip code ↔ (guardAt ip code n).isSome = true := by
  rw [inserted, Lines.mem_marked_iff]
  simp only [getElem?_unguarded, Option.map_eq_some_iff]
  constructor
  · rintro ⟨_, ⟨s, -, rfl⟩, hsome⟩
    exact hsome
  · intro hsome
    cases hs : code[n]? with
    | some s => exact ⟨_, ⟨s, rfl, rfl⟩, hsome⟩
    | none =>
      rw [guardAt, hs, Option.bind_none] at hsome
      split at hsome <;> cases hsome

/-- What gets a guard is a skip by the register that the guard compares. -/
theorem eq_of_guardAt {s : Stmt} {x : Reg} (hs : code[n]? = some s)
    (hx : guardAt ip code n = some x) : s = .update .add ip (.reg x) := by
  rw [guardAt, hs, Option.bind_some] at hx
  split at hx
  · cases hx
  · unfold skip? at hx
    split at hx
    · split at hx
      · next hdest =>
        cases hx
        rw [hdest]
      · cases hx
    · cases hx

/-! ## The lines of guarded code -/

/-- Where a line goes, if there is room. -/
def shifted (ip : Reg) (code : Code) (n : Nat) : Nat := n + Lines.below (inserted ip code) n

theorem shifted_zero (ip : Reg) (code : Code) : shifted ip code 0 = 0 := by
  rw [shifted, Lines.below, List.countP_eq_zero.mpr fun t _ ↦ by simp]

theorem shifted_succ (ip : Reg) (code : Code) (n : Nat) :
    shifted ip code (n + 1) =
      shifted ip code n + if (guardAt ip code n).isSome then 2 else 1 := by
  have hmem : n ∈ Lines.marked Option.isSome (unguarded ip code) ↔
      (guardAt ip code n).isSome = true := mem_inserted_iff
  rw [shifted, shifted, inserted, Lines.below_succ]
  simp only [hmem]
  split <;> omega

theorem renumber_eq_shifted (h : n + code.length < UInt64.size) :
    renumber (inserted ip code) n = shifted ip code n := by
  have hle := (Lines.below_le Option.isSome (unguarded ip code) n).2
  rw [unguarded, length_scan, ← unguarded, ← inserted] at hle
  exact Nat.mod_eq_of_lt (by omega)

/-- A line goes behind the blocks of the lines above it. -/
theorem shifted_eq_length (hn : n ≤ code.length) :
    shifted ip code n =
      ((((unguarded ip code).zip code).take n).flatMap withGuard).length := by
  induction n with
  | zero => exact shifted_zero ip code
  | succ n ih =>
    have hs : code[n]? = some code[n] := List.getElem?_eq_getElem hn
    have hget : ((unguarded ip code).zip code)[n]? = some (guardAt ip code n, code[n]) := by
      rw [List.getElem?_zip_eq_some, getElem?_unguarded, hs]
      exact ⟨rfl, rfl⟩
    rw [shifted_succ, ih (Nat.le_of_lt hn), List.take_add_one, hget, Option.toList_some,
      List.flatMap_append, List.length_append, List.flatMap_singleton]
    cases guardAt ip code n <;> rfl

/-- **Every line has its block where the line goes.** -/
theorem getElem?_guardAll {s : Stmt} (hs : code[n]? = some s) :
    match guardAt ip code n with
    | none => (guardAll ip code)[shifted ip code n]? =
        some (s.mapTargets (renumber (inserted ip code)))
    | some x => (guardAll ip code)[shifted ip code n]? = some (guardOf x) ∧
        (guardAll ip code)[shifted ip code n + 1]? = some s := by
  have hlt := (List.getElem?_eq_some_iff.mp hs).1
  have hget : ((unguarded ip code).zip code)[n]? = some (guardAt ip code n, s) := by
    rw [List.getElem?_zip_eq_some, getElem?_unguarded, hs]
    exact ⟨rfl, rfl⟩
  have block {k : Nat} (hk : k < (withGuard (guardAt ip code n, s)).length) :
      (guardAll ip code)[shifted ip code n + k]? =
        ((withGuard (guardAt ip code n, s))[k]?).map
          (Stmt.mapTargets (renumber (inserted ip code))) := by
    rw [guardAll, Code.mapTargets_eq_map, List.getElem?_map,
      shifted_eq_length (Nat.le_of_lt hlt), Lines.getElem?_flatMap hget hk]
  cases hx : guardAt ip code n with
  | none =>
    rw [hx] at block
    exact block (k := 0) Nat.zero_lt_one
  | some x =>
    rw [hx] at block
    refine ⟨block (k := 0) Nat.zero_lt_two, ?_⟩
    rw [block (k := 1) Nat.one_lt_two, eq_of_guardAt hs hx]
    rfl

/-- Guarded code has the statements of the code, and the guards of its skips. -/
theorem exists_of_mem_guardAll {s : Stmt} (hs : s ∈ guardAll ip code) :
    (∃ s' ∈ code, s = s'.mapTargets (renumber (inserted ip code))) ∨
      ∃ x, Stmt.update .add ip (.reg x) ∈ code ∧ s = guardOf x := by
  rw [guardAll, Code.mapTargets_eq_map] at hs
  obtain ⟨s₁, hs₁, rfl⟩ := List.mem_map.mp hs
  obtain ⟨⟨guard?, s'⟩, hpair, hmem⟩ := List.mem_flatMap.mp hs₁
  obtain ⟨n, hn⟩ := List.mem_iff_getElem?.mp hpair
  rw [List.getElem?_zip_eq_some, getElem?_unguarded] at hn
  obtain ⟨hguard, hs'⟩ := hn
  rw [hs', Option.map_some, Option.some.injEq] at hguard
  have hmem' := List.mem_of_getElem? hs'
  cases guard? with
  | none =>
    rw [withGuard, List.mem_singleton] at hmem
    exact .inl ⟨s', hmem', by rw [hmem]⟩
  | some x =>
    rw [withGuard, List.mem_cons, List.mem_singleton] at hmem
    rcases hmem with rfl | rfl
    · exact .inr ⟨x, eq_of_guardAt hs' hguard ▸ hmem', rfl⟩
    · exact .inl ⟨s₁, hmem', rfl⟩

/-- A line past the end goes past the end. -/
theorem getElem?_guardAll_of_none (hn : code[n]? = none) :
    (guardAll ip code)[shifted ip code n]? = none := by
  have hle := List.getElem?_eq_none_iff.mp hn
  have hlen : (unguarded ip code).length = code.length := length_scan ip true code
  have hend : shifted ip code code.length = _ := shifted_eq_length (Nat.le_refl _)
  have hzip : ((unguarded ip code).zip code).length ≤ code.length := by
    rw [List.length_zip]
    exact Nat.min_le_right _ _
  rw [List.take_of_length_le hzip] at hend
  have hbelow : Lines.below (inserted ip code) n = Lines.below (inserted ip code) code.length := by
    rw [inserted, Lines.below_marked, Lines.below_marked, List.take_of_length_le (by omega),
      List.take_of_length_le (by omega)]
  rw [guardAll, List.getElem?_eq_none_iff, Code.length_mapTargets, ← hend, shifted, shifted, hbelow]
  exact Nat.add_le_add_right hle _

end Unjump.Skips
