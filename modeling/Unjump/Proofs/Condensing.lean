import Unjump.Skips
import Unjump.Stores
import Unjump.Proofs.Liveness
import Unjump.Proofs.Structure

/-!
# The passes that change nothing but form

Of the two passes between lifting and folding, the first may drop stores and the second may put
guards in. Where the first drops nothing, all it does is write assignments shorter, statement by
statement (`Stores.shorten`); a shorter statement does, reads and stores what the longer one did.
Where the second puts nothing in, it leaves code as it is, as long as its targets are 64-bit
numbers.
-/

namespace Unjump

/-! ## Shorter statements -/

namespace Stores

/-- A statement after the first pass, if it is kept. -/
def shorten : Stmt → Stmt
  | .assign dest (.bin op lhs rhs) => compound dest op lhs rhs
  | s => s

/-- What is not dropped is written shorter. -/
theorem visit_fst_of_isSome {known : Known} {s : Stmt} (h : (visit known s).1.isSome = true) :
    (visit known s).1 = some (shorten s) := by
  have plain {dest : Reg} {value : Expr} (hs : shorten (.assign dest value) = .assign dest value)
      (h : (if value = .reg dest ∨ known dest = some value then (none, known)
        else (some (Stmt.assign dest value), known.record dest value)).1.isSome = true) :
      (if value = .reg dest ∨ known dest = some value then (none, known)
        else (some (Stmt.assign dest value), known.record dest value)).1 =
          some (shorten (.assign dest value)) := by
    split at h
    · cases h
    · next hkept => rw [if_neg hkept, hs]
  cases s with
  | assign dest value =>
    cases value with
    | reg i => exact plain rfl h
    | lit w => exact plain rfl h
    | bin op lhs rhs => rfl
  | _ => rfl

theorem scan_eq_map {known : Known} {code : Code} (h : ∀ s? ∈ scan known code, s?.isSome = true) :
    scan known code = code.map (some ∘ shorten) := by
  induction code generalizing known with
  | nil => rfl
  | cons s rest ih =>
    have hscan : scan known (s :: rest) = (visit known s).1 :: scan (visit known s).2 rest := rfl
    rw [hscan] at h ⊢
    rw [List.forall_mem_cons] at h
    rw [visit_fst_of_isSome h.1, ih h.2, List.map_cons, Function.comp_apply]

/-- **Where nothing is dropped, every statement is written shorter and that is all.** -/
theorem condense_preserve_of_deleted {code : Code} (h : deleted code = []) :
    condense .preserve code = code.map shorten := by
  have hkept : ∀ s? ∈ scan .nothing code, s?.isSome = true := by
    intro s? hs
    obtain ⟨line, hline⟩ := List.mem_iff_getElem?.mp hs
    cases s? with
    | some s => rfl
    | none =>
      have hmem : line ∈ deleted code := Lines.mem_marked_iff.mpr ⟨none, hline, rfl⟩
      rw [h] at hmem
      cases hmem
  rw [condense, scan_eq_map hkept, List.filterMap_map]
  exact congrFun List.filterMap_eq_map code

/-! ## A shorter statement is the same statement -/

/-- A statement is kept as it is, or it is an assignment that becomes an update: of the same value,
which reads what the update reads. -/
theorem shorten_cases (s : Stmt) :
    shorten s = s ∨ ∃ op dest value value', s = .assign dest value ∧
      shorten s = .update op dest value' ∧
      (∀ r : Registers, value.eval r = op.apply (r.get dest) (value'.eval r)) ∧
      ∀ i, value.reads i = (dest == i || value'.reads i) := by
  cases s with
  | assign dest value =>
    cases value with
    | reg i => exact .inl rfl
    | lit w => exact .inl rfl
    | bin op lhs rhs =>
      simp only [shorten, compound]
      split
      · next hl =>
        subst hl
        refine .inr ⟨op, dest, _, rhs, rfl, rfl, fun r ↦ rfl, fun i ↦ ?_⟩
        rw [Expr.reads, Expr.reads, Bool.beq_comm]
      · split
        · next hr =>
          obtain ⟨rfl, hop⟩ := hr
          refine .inr ⟨op, dest, _, lhs, rfl, rfl, fun r ↦ ?_, fun i ↦ ?_⟩
          · rw [Expr.eval, BinOp.apply_comm hop]
            rfl
          · rw [Expr.reads, Expr.reads, Bool.or_comm, Bool.beq_comm]
        · exact .inl rfl
  | _ => exact .inl rfl

theorem eq_of_shorten {s s' : Stmt} (h : shorten s = s')
    (hs' : ∀ op dest value, s' ≠ .update op dest value) : s = s' := by
  rcases shorten_cases s with hs | ⟨op, dest, value, value', -, hs, -⟩
  · rw [← hs, h]
  · exact absurd (h.symm.trans hs) (hs' op dest value')

theorem exec_shorten (ip : Reg) (s : Stmt) : (shorten s).exec ip = s.exec ip := by
  rcases shorten_cases s with h | ⟨op, dest, value, value', rfl, h, heval, -⟩
  · rw [h]
  · rw [h]
    funext r n
    cases n with
    | zero => rw [Stmt.exec, Stmt.exec]
    | succ left => rw [Stmt.exec, Stmt.exec, heval r]

theorem writesPointer_shorten (ip : Reg) (s : Stmt) :
    (shorten s).writesPointer ip = s.writesPointer ip := by
  rcases shorten_cases s with h | ⟨op, dest, value, value', rfl, h, -⟩ <;> rw [h]
  rfl

theorem reads_shorten (i : Reg) (s : Stmt) : (shorten s).reads i = s.reads i := by
  rcases shorten_cases s with h | ⟨op, dest, value, value', rfl, h, -, hreads⟩ <;> rw [h]
  simp [Stmt.reads, Stmt.updates, Stmt.exprs, hreads]

theorem dest?_shorten (s : Stmt) : (shorten s).dest? = s.dest? := by
  rcases shorten_cases s with h | ⟨op, dest, value, value', rfl, h, -⟩ <;> rw [h]
  rfl

theorem successors_shorten (ip : Reg) (line : Nat) (s : Stmt) :
    (shorten s).successors ip line = s.successors ip line := by
  rcases shorten_cases s with h | ⟨op, dest, value, value', rfl, h, -⟩ <;> rw [h]
  rfl

theorem targets_shorten (s : Stmt) : (shorten s).targets = s.targets := by
  rcases shorten_cases s with h | ⟨op, dest, value, value', rfl, h, -⟩ <;> rw [h]
  rfl

theorem flows_shorten (s : Stmt) : (shorten s).flows = s.flows := by
  rcases shorten_cases s with h | ⟨op, dest, value, value', rfl, h, -⟩ <;> rw [h]
  rfl

theorem isStructured_shorten (s : Stmt) : (shorten s).isStructured = s.isStructured := by
  rcases shorten_cases s with h | ⟨op, dest, value, value', rfl, h, -⟩ <;> rw [h]
  rfl

theorem execAt_shorten (ip : Reg) (line : Nat) (s : Stmt) :
    (shorten s).execAt ip line = s.execAt ip line := by
  funext r n
  rw [Stmt.execAt, Stmt.execAt, writesPointer_shorten, exec_shorten]

/-- What is live in shortened code was live before. -/
theorem live_of_map_shorten {ip : Reg} {outputs : List Reg} {code : Code} {i : Reg} {line : Nat}
    (h : Code.Live ip outputs (code.map shorten) i line) : Code.Live ip outputs code i line := by
  induction h with
  | read hs hr =>
    rw [List.getElem?_map] at hs
    obtain ⟨s, hs', rfl⟩ := Option.map_eq_some_iff.mp hs
    exact .read hs' (by rwa [reads_shorten] at hr)
  | pass hs hd hnext _ ih =>
    rw [List.getElem?_map] at hs
    obtain ⟨s, hs', rfl⟩ := Option.map_eq_some_iff.mp hs
    rw [dest?_shorten] at hd
    rw [successors_shorten] at hnext
    exact .pass hs' hd hnext ih
  | exit hs ho =>
    rw [List.getElem?_map, Option.map_eq_none_iff] at hs
    exact .exit hs ho
  | halt hs ho =>
    rw [List.getElem?_map] at hs
    obtain ⟨s, hs', heq⟩ := Option.map_eq_some_iff.mp hs
    rcases shorten_cases s with h | ⟨op, dest, value, value', rfl, h, -⟩
    · exact .halt (by rw [hs', ← h, heq]) ho
    · rw [h] at heq
      cases heq

end Stores

/-- Code whose statements do the same, line by line, runs the same. -/
theorem Code.Ends.of_execAt_eq {ip : Reg} {code code' : Code}
    (h : ∀ line : Nat, (code[line]?).map (Stmt.execAt ip line) =
      (code'[line]?).map (Stmt.execAt ip line))
    {line n : Nat} {r r' : Registers} (he : Ends ip code line r n r') :
    Ends ip code' line r n r' := by
  have same {line : Nat} {s : Stmt} (hs : code[line]? = some s) :
      ∃ s', code'[line]? = some s' ∧ s'.execAt ip line = s.execAt ip line := by
    have hline := h line
    rw [hs, Option.map_some] at hline
    exact Option.map_eq_some_iff.mp hline.symm
  induction he with
  | @off line r hs =>
    have hline := h line
    rw [hs, Option.map_none] at hline
    exact .off (Option.map_eq_none_iff.mp hline.symm)
  | stop hs ht =>
    obtain ⟨s', hs', heq⟩ := same hs
    exact .stop hs' (heq ▸ ht)
  | step hs ht _ ih =>
    obtain ⟨s', hs', heq⟩ := same hs
    exact .step hs' (heq ▸ ht) ih

/-- **Shortened code runs as the code does**, step by step. -/
theorem Code.ends_map_shorten_iff {ip : Reg} {code : Code} {line n : Nat} {r r' : Registers} :
    Ends ip (code.map Stores.shorten) line r n r' ↔ Ends ip code line r n r' := by
  have heq : ∀ line : Nat, ((code.map Stores.shorten)[line]?).map (Stmt.execAt ip line) =
      (code[line]?).map (Stmt.execAt ip line) := by
    intro line
    rw [List.getElem?_map, Option.map_map]
    congr 1
    funext s
    exact Stores.execAt_shorten ip line s
  exact ⟨.of_execAt_eq heq, .of_execAt_eq fun line ↦ (heq line).symm⟩

/-! ## Nothing to guard -/

mutual

theorem Stmt.mapTargets_eq_self {g : Nat → Nat} (s : Stmt) (h : ∀ t ∈ s.targets, g t = t) :
    s.mapTargets g = s := by
  cases s with
  | goto t => rw [Stmt.mapTargets, h t (by simp [Stmt.targets])]
  | branch cond ifTrue ifFalse =>
    rw [Stmt.mapTargets, h ifTrue (by simp [Stmt.targets]), h ifFalse (by simp [Stmt.targets])]
  | ifThen cond body => rw [Stmt.mapTargets, Code.mapTargets_eq_self body h]
  | doUntil cond body => rw [Stmt.mapTargets, Code.mapTargets_eq_self body h]
  | forUntil var init cond body => rw [Stmt.mapTargets, Code.mapTargets_eq_self body h]
  | _ => rfl

theorem Code.mapTargets_eq_self {g : Nat → Nat} (code : List Stmt)
    (h : ∀ t ∈ Code.targets code, g t = t) : Code.mapTargets g code = code := by
  cases code with
  | nil => rfl
  | cons s rest =>
    rw [Code.targets] at h
    rw [Code.mapTargets, Stmt.mapTargets_eq_self s fun t ht ↦ h t (List.mem_append_left _ ht),
      Code.mapTargets_eq_self rest fun t ht ↦ h t (List.mem_append_right _ ht)]

end

namespace Skips

theorem flatMap_withGuard_zip {guards : List (Option Reg)} {code : Code}
    (hlen : guards.length = code.length) (h : ∀ g ∈ guards, g = none) :
    (guards.zip code).flatMap withGuard = code := by
  induction code generalizing guards with
  | nil => rw [List.zip_nil_right, List.flatMap_nil]
  | cons s rest ih =>
    cases guards with
    | nil => cases hlen
    | cons g guards =>
      rw [List.forall_mem_cons] at h
      obtain ⟨rfl, hrest⟩ := h
      rw [List.zip_cons_cons, List.flatMap_cons, ih (Nat.succ.inj hlen) hrest]
      rfl

/-- **Where no guard is put in, code stays as it is.** -/
theorem guardAll_of_inserted {ip : Reg} {code : Code} (h : inserted ip code = [])
    (ht : ∀ t ∈ Code.targets code, t < UInt64.size) : guardAll ip code = code := by
  have hnone : ∀ g ∈ unguarded ip code, g = none := by
    intro g hg
    obtain ⟨line, hline⟩ := List.mem_iff_getElem?.mp hg
    cases g with
    | none => rfl
    | some r =>
      have hmem : line ∈ inserted ip code := Lines.mem_marked_iff.mpr ⟨some r, hline, rfl⟩
      rw [h] at hmem
      cases hmem
  have hlen : (unguarded ip code).length = code.length := length_scan ip true code
  rw [guardAll, flatMap_withGuard_zip hlen hnone, h]
  refine Code.mapTargets_eq_self code fun t hmem ↦ ?_
  rw [renumber, Lines.below, List.countP_nil, Nat.add_zero, Nat.mod_eq_of_lt (ht t hmem)]

end Skips

end Unjump
