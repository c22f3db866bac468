import Unjump.Proofs.Condensing

/-!
# Where lines go when stores are dropped

Condensing code drops the stores that repeat what a register is known to hold, and moves every
target up by the number of dropped lines before it. So a line that is kept has its statement at the
line it is moved to, and a line that is dropped is moved to where the next one goes
(`Stores.renumber_succ_of_mem`, `Stores.getElem?_condense`).

## Why a store was dropped

What is known before a line (`Stores.knownAt`) was recorded by an earlier line, the last one kept
that stores into the register. Between the two there are only assignments of plain values, and none
of them has touched the register or what its value was read from. `Stores.Repeats` is this relation
between the two lines. Nothing in it says that control came by the earlier one.
-/

namespace Unjump

/-! ## Positions in blocks

Either pass turns every line into a block of lines, none, one or two, and puts the blocks one after
the other. -/

namespace Lines

theorem getElem?_flatMap {α β : Type} {f : α → List β} {xs : List α} {n k : Nat} {x : α}
    (hx : xs[n]? = some x) (hk : k < (f x).length) :
    (xs.flatMap f)[((xs.take n).flatMap f).length + k]? = (f x)[k]? := by
  have hsplit : xs.flatMap f =
      (xs.take n).flatMap f ++ (f x ++ (xs.drop (n + 1)).flatMap f) := by
    conv => lhs; rw [← List.take_append_drop n xs]
    rw [List.flatMap_append, List.drop_eq_getElem?_toList_append (i := n), hx, Option.toList_some,
      List.singleton_append, List.flatMap_cons]
  rw [hsplit, List.getElem?_append_right (Nat.le_add_right _ _), Nat.add_sub_cancel_left,
    List.getElem?_append_left hk]

theorem filterMap_id_eq_flatMap {α : Type} (xs : List (Option α)) :
    xs.filterMap id = xs.flatMap Option.toList := by
  induction xs with
  | nil => rfl
  | cons x? xs ih =>
    rw [List.flatMap_cons, ← ih]
    cases x? <;> rfl

/-- The number of marked lines before a line. -/
theorem below_marked {α : Type} (p : α → Bool) (xs : List α) (n : Nat) :
    below (marked p xs) n = (xs.take n).countP p := by
  have counted (k : Nat) :
      (xs.zipIdx k).countP (fun x ↦ decide (x.2 < k + n) && p x.1) = (xs.take n).countP p := by
    induction xs generalizing n k with
    | nil => simp
    | cons x xs ih =>
      cases n with
      | zero =>
        rw [List.take_zero, List.countP_nil, List.countP_eq_zero]
        intro y hy
        have hle := List.le_snd_of_mem_zipIdx hy
        simp only [Bool.and_eq_true, decide_eq_true_eq]
        omega
      | succ n =>
        have hrest := ih n (k + 1)
        rw [show k + 1 + n = k + (n + 1) from by omega] at hrest
        rw [List.zipIdx_cons, List.take_succ_cons, List.countP_cons, List.countP_cons, hrest]
        simp
  have hzero := counted 0
  rw [Nat.zero_add] at hzero
  rw [below, marked, List.countP_map, List.countP_filter, ← hzero]
  rfl

/-- One more line before a line is one more marked line at most. -/
theorem below_succ {α : Type} (p : α → Bool) (xs : List α) (n : Nat) :
    below (marked p xs) (n + 1) =
      below (marked p xs) n + if n ∈ marked p xs then 1 else 0 := by
  rw [below_marked, below_marked, List.take_add_one, List.countP_append]
  congr 1
  by_cases hmem : n ∈ marked p xs
  · obtain ⟨x, hx, hp⟩ := mem_marked_iff.mp hmem
    rw [if_pos hmem, hx]
    simp [hp]
  · rw [if_neg hmem]
    cases hx : xs[n]? with
    | none => rfl
    | some x =>
      have hp : ¬p x := fun hp ↦ hmem (mem_marked_iff.mpr ⟨x, hx, hp⟩)
      simp [hp]

theorem below_le {α : Type} (p : α → Bool) (xs : List α) (n : Nat) :
    below (marked p xs) n ≤ n ∧ below (marked p xs) n ≤ xs.length := by
  have hle := (xs.take n).countP_le_length (p := p)
  rw [List.length_take] at hle
  rw [below_marked]
  omega

end Lines

namespace Stores

/-! ## What is known at a line -/

/-- What is known before a line, from the lines above it. -/
def knownAt (code : Code) (n : Nat) : Known :=
  (code.take n).foldl (fun known s ↦ (visit known s).2) .nothing

variable {code : Code} {n : Nat}

theorem knownAt_succ {s : Stmt} (hs : code[n]? = some s) :
    knownAt code (n + 1) = (visit (knownAt code n) s).2 := by
  rw [knownAt, List.take_add_one, hs, Option.toList_some, List.foldl_append]
  rfl

theorem getElem?_scan (code : Code) (n : Nat) :
    (scan .nothing code)[n]? = (code[n]?).map fun s ↦ (visit (knownAt code n) s).1 := by
  have general (known : Known) : (scan known code)[n]? = (code[n]?).map fun s ↦
      (visit ((code.take n).foldl (fun known s ↦ (visit known s).2) known) s).1 := by
    induction code generalizing n known with
    | nil => rfl
    | cons s rest ih =>
      cases n with
      | zero => rfl
      | succ n => exact ih (n := n) (visit known s).2
  exact general .nothing

theorem mem_deleted_iff :
    n ∈ deleted code ↔ ∃ s, code[n]? = some s ∧ (visit (knownAt code n) s).1 = none := by
  rw [deleted, Lines.mem_marked_iff]
  simp only [getElem?_scan, Option.map_eq_some_iff]
  constructor
  · rintro ⟨_, ⟨s, hs, rfl⟩, hnone⟩
    exact ⟨s, hs, Option.isNone_iff_eq_none.mp hnone⟩
  · rintro ⟨s, hs, hnone⟩
    exact ⟨_, ⟨s, hs, rfl⟩, Option.isNone_iff_eq_none.mpr hnone⟩

theorem getElem?_scan_of_not_mem {s : Stmt} (hs : code[n]? = some s) (hn : n ∉ deleted code) :
    (scan .nothing code)[n]? = some (some (shorten s)) := by
  have hsome : (visit (knownAt code n) s).1.isSome = true := by
    rw [Option.isSome_iff_ne_none]
    exact fun hnone ↦ hn (mem_deleted_iff.mpr ⟨s, hs, hnone⟩)
  rw [getElem?_scan, hs, Option.map_some, visit_fst_of_isSome hsome]

/-! ## The lines of condensed code -/

theorem renumber_zero (lines : List Nat) : renumber lines 0 = 0 := Nat.zero_sub _

/-- A dropped line goes where the next line goes. -/
theorem renumber_succ_of_mem (hn : n ∈ deleted code) :
    renumber (deleted code) (n + 1) = renumber (deleted code) n := by
  rw [renumber, renumber, deleted, Lines.below_succ, ← deleted, if_pos hn, Nat.add_sub_add_right]

/-- After a line that is kept there is room for one. -/
theorem renumber_succ_of_not_mem (hn : n ∉ deleted code) :
    renumber (deleted code) (n + 1) = renumber (deleted code) n + 1 := by
  have hle := (Lines.below_le Option.isNone (scan .nothing code) n).1
  rw [← deleted] at hle
  rw [renumber, renumber, deleted, Lines.below_succ, ← deleted, if_neg hn]
  omega

/-- A line goes behind what is kept of the lines above it. -/
theorem renumber_eq_length (hn : n ≤ code.length) :
    renumber (deleted code) n = (((scan .nothing code).take n).flatMap Option.toList).length := by
  induction n with
  | zero => exact renumber_zero _
  | succ n ih =>
    have hlt : n < code.length := hn
    have hs : code[n]? = some code[n] := List.getElem?_eq_getElem hlt
    rw [List.take_add_one, List.flatMap_append, List.length_append, ← ih (Nat.le_of_lt hlt)]
    by_cases hmem : n ∈ deleted code
    · obtain ⟨s, hs', hnone⟩ := mem_deleted_iff.mp hmem
      rw [renumber_succ_of_mem hmem, getElem?_scan, hs', Option.map_some, hnone]
      rfl
    · rw [renumber_succ_of_not_mem hmem, getElem?_scan_of_not_mem hs hmem]
      rfl

theorem condense_renumber (code : Code) :
    condense .renumber code = ((scan .nothing code).flatMap Option.toList).map
      (Stmt.mapTargets (renumber (deleted code))) := by
  rw [condense, Code.mapTargets_eq_map, Lines.filterMap_id_eq_flatMap]

/-- **A line that is kept has its statement, written shorter, where the line goes.** -/
theorem getElem?_condense {s : Stmt} (hs : code[n]? = some s) (hn : n ∉ deleted code) :
    (condense .renumber code)[renumber (deleted code) n]? =
      some ((shorten s).mapTargets (renumber (deleted code))) := by
  have hlt := (List.getElem?_eq_some_iff.mp hs).1
  have hget := Lines.getElem?_flatMap (f := Option.toList) (k := 0)
    (getElem?_scan_of_not_mem hs hn) (by simp)
  rw [condense_renumber, List.getElem?_map, renumber_eq_length (Nat.le_of_lt hlt)]
  rw [Nat.add_zero] at hget
  rw [hget]
  rfl

/-- A line past the end goes past the end. -/
theorem getElem?_condense_of_none (hn : code[n]? = none) :
    (condense .renumber code)[renumber (deleted code) n]? = none := by
  have hle := List.getElem?_eq_none_iff.mp hn
  have hend : renumber (deleted code) code.length = _ := renumber_eq_length (Nat.le_refl _)
  rw [List.take_of_length_le (Nat.le_of_eq (length_scan _ code))] at hend
  have hbelow : Lines.below (deleted code) n = Lines.below (deleted code) code.length := by
    rw [deleted, Lines.below_marked, Lines.below_marked,
      List.take_of_length_le (by rw [length_scan]; exact hle),
      List.take_of_length_le (Nat.le_of_eq (length_scan _ code))]
  rw [condense_renumber, List.getElem?_eq_none_iff, List.length_map, ← hend, renumber, renumber,
    hbelow]
  exact Nat.sub_le_sub_right hle _

/-! ## Repeated stores -/

/-- What a visit does to a statement and to what is known: it drops an assignment and goes on with
what it knew, or records one, or knows nothing after it. -/
theorem visit_cases (known : Known) (s : Stmt) :
    (∃ i e, s = .assign i e ∧ e.isBin = false ∧ (e = .reg i ∨ known i = some e) ∧
      visit known s = (none, known)) ∨
    (∃ i e, s = .assign i e ∧ e.isBin = false ∧ e ≠ .reg i ∧
      visit known s = (some s, known.record i e)) ∨
    (visit known s).1.isSome = true ∧ (visit known s).2 = .nothing := by
  have plain {i : Reg} {e : Expr} (he : e.isBin = false)
      (hv : visit known (.assign i e) = if e = .reg i ∨ known i = some e then (none, known)
        else (some (.assign i e), known.record i e)) :
      (∃ i' e', Stmt.assign i e = .assign i' e' ∧ e'.isBin = false ∧
        (e' = .reg i' ∨ known i' = some e') ∧ visit known (.assign i e) = (none, known)) ∨
      (∃ i' e', Stmt.assign i e = .assign i' e' ∧ e'.isBin = false ∧ e' ≠ .reg i' ∧
        visit known (.assign i e) = (some (.assign i e), known.record i' e')) := by
    by_cases hd : e = .reg i ∨ known i = some e
    · exact .inl ⟨i, e, rfl, he, hd, by rw [hv, if_pos hd]⟩
    · exact .inr ⟨i, e, rfl, he, fun heq ↦ hd (.inl heq), by rw [hv, if_neg hd]⟩
  cases s with
  | assign i e =>
    cases e with
    | reg j => exact (plain rfl rfl).imp_right .inl
    | lit w => exact (plain rfl rfl).imp_right .inl
    | bin op lhs rhs => exact .inr (.inr ⟨rfl, rfl⟩)
  | _ => exact .inr (.inr ⟨rfl, rfl⟩)

/-- The line is dropped, or it assigns something to another register than `i` and than the one that
`e` reads. -/
def Spares (code : Code) (i : Reg) (e : Expr) (k : Nat) : Prop :=
  k ∈ deleted code ∨ ∃ j v, code[k]? = some (.assign j v) ∧ j ≠ i ∧ e.reads j = false

/-- **What is known at a line was stored by an earlier one**, and the lines between have not
touched it. -/
theorem exists_of_knownAt (hn : n ≤ code.length) {i : Reg} {e : Expr}
    (h : knownAt code n i = some e) :
    ∃ s < n, code[s]? = some (.assign i e) ∧ s ∉ deleted code ∧ e.isBin = false ∧ e ≠ .reg i ∧
      ∀ k, s < k → k < n → Spares code i e k := by
  induction n with
  | zero => cases h
  | succ n ih =>
    have hs : code[n]? = some code[n] := List.getElem?_eq_getElem hn
    have extend (h' : knownAt code n i = some e) (hspares : Spares code i e n) :
        ∃ s < n + 1, code[s]? = some (.assign i e) ∧ s ∉ deleted code ∧ e.isBin = false ∧
          e ≠ .reg i ∧ ∀ k, s < k → k < n + 1 → Spares code i e k := by
      obtain ⟨s, hlt, hs, hkept, hbin, hne, hbetween⟩ := ih (Nat.le_of_lt hn) h'
      refine ⟨s, Nat.lt_succ_of_lt hlt, hs, hkept, hbin, hne, fun k hk hk' ↦ ?_⟩
      rcases Nat.lt_succ_iff_lt_or_eq.mp hk' with hk' | rfl
      · exact hbetween k hk hk'
      · exact hspares
    rw [knownAt_succ hs] at h
    rcases visit_cases (knownAt code n) code[n] with
      ⟨j, v, -, -, -, hv⟩ | ⟨j, v, hsv, hbin, hne, hv⟩ | ⟨-, hnothing⟩
    · rw [hv] at h
      exact extend h (.inl (mem_deleted_iff.mpr ⟨_, hs, by rw [hv]⟩))
    · have hkept : n ∉ deleted code := by
        intro hmem
        obtain ⟨s', hs', hnone⟩ := mem_deleted_iff.mp hmem
        rw [hs] at hs'
        cases hs'
        rw [hv] at hnone
        cases hnone
      rw [hv] at h
      simp only [Known.record] at h
      split at h
      · next hij =>
        cases h
        rw [hij]
        exact ⟨n, Nat.lt_succ_self n, hsv ▸ hs, hkept, hbin, hne, fun k hk hk' ↦ by omega⟩
      · next hij =>
        obtain ⟨hknown, hreads⟩ := Option.filter_eq_some_iff.mp h
        exact extend hknown (.inr ⟨j, v, hsv ▸ hs, Ne.symm hij, by simpa using hreads⟩)
    · rw [hnothing] at h
      cases h

/-- Line `d` is dropped because it stores what line `s` has stored already: of the lines that are
kept, `s` is the last one before `d` that assigns to the register. -/
structure Repeats (code : Code) (s d : Nat) (i : Reg) (e : Expr) : Prop where
  store : code[s]? = some (.assign i e)
  kept : s ∉ deleted code
  again : code[d]? = some (.assign i e)
  dropped : d ∈ deleted code
  lt : s < d
  last : ∀ k, s < k → k < d → k ∉ deleted code → ∀ e', code[k]? ≠ some (.assign i e')

/-- A dropped line assigns a register to itself or repeats an earlier store. -/
theorem exists_repeats {d : Nat} (hd : d ∈ deleted code) :
    ∃ i e, code[d]? = some (.assign i e) ∧ (e = .reg i ∨ ∃ s, Repeats code s d i e) := by
  obtain ⟨t, ht, hnone⟩ := mem_deleted_iff.mp hd
  have hend := (List.getElem?_eq_some_iff.mp ht).1
  rcases visit_cases (knownAt code d) t with
    ⟨i, e, rfl, -, heq | hknown, -⟩ | ⟨i, e, -, -, -, hv⟩ | ⟨hsome, -⟩
  · exact ⟨i, e, ht, .inl heq⟩
  · obtain ⟨s, hlt, hs, hkept, -, -, hbetween⟩ := exists_of_knownAt (Nat.le_of_lt hend) hknown
    refine ⟨i, e, ht, .inr ⟨s, hs, hkept, ht, hd, hlt, fun k hk hk' hkept' e' he' ↦ ?_⟩⟩
    rcases hbetween k hk hk' with hmem | ⟨j, v, hj, hne, -⟩
    · exact hkept' hmem
    · rw [hj] at he'
      cases he'
      exact hne rfl
  · rw [hv] at hnone
    cases hnone
  · rw [hnone] at hsome
    cases hsome

namespace Repeats

variable {s d : Nat} {i : Reg} {e : Expr}

/-- A store that is repeated is of a plain value, and not of the register itself. -/
theorem plain (h : Repeats code s d i e) :
    e.isBin = false ∧ e ≠ .reg i ∧ ∀ k, s < k → k < d → Spares code i e k := by
  have hself : e ≠ .reg i := by
    rintro rfl
    refine h.kept (mem_deleted_iff.mpr ⟨_, h.store, ?_⟩)
    simp [visit]
  obtain ⟨t, ht, hnone⟩ := mem_deleted_iff.mp h.dropped
  have hend := (List.getElem?_eq_some_iff.mp ht).1
  rw [h.again] at ht
  cases ht
  rcases visit_cases (knownAt code d) (.assign i e) with
    ⟨i', e', heq, hbin, hwhy, -⟩ | ⟨i', e', -, -, -, hv⟩ | ⟨hsome, -⟩
  · cases heq
    have hknown := hwhy.resolve_left hself
    obtain ⟨s', hlt, hs', hkept, -, -, hbetween⟩ := exists_of_knownAt (Nat.le_of_lt hend) hknown
    -- of the two lines neither is before the other
    have hsame : s' = s := by
      rcases Nat.lt_trichotomy s s' with hlt' | heq | hlt'
      · exact absurd hs' (h.last s' hlt' hlt hkept e)
      · exact heq.symm
      · rcases hbetween s hlt' h.lt with hmem | ⟨j, v, hj, hne, -⟩
        · exact absurd hmem h.kept
        · rw [h.store] at hj
          cases hj
          exact absurd rfl hne
    exact ⟨hbin, hself, hsame ▸ hbetween⟩
  · rw [hv] at hnone
    cases hnone
  · rw [hnone] at hsome
    cases hsome

/-- The value does not depend on the register it is stored into. -/
theorem reads_eq_false (h : Repeats code s d i e) : e.reads i = false := by
  obtain ⟨hbin, hself, -⟩ := h.plain
  cases e with
  | reg j =>
    rw [Expr.reads, beq_eq_false_iff_ne]
    exact fun heq ↦ hself (by rw [heq])
  | lit w => rfl
  | bin op lhs rhs => cases hbin

end Repeats

end Stores

end Unjump
