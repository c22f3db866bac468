import Unjump.Proofs.Faithful
import Unjump.Proofs.FusedLines
import Unjump.Proofs.Guarding

/-!
# From lifted code to fused code

Between lifted code and the code in which all fusions were made lie two passes and any number of
folds, each of which moves lines. `Code.Covers` says what has become of a single line of lifted
code, once for all of them: it was dropped, its statement is where the line went, it is a skip with
or without a guard, or it is the first line of a place that was fused, with a comparison of its own
or with a guard that was put in.

## Where this fails

A line is covered by what stands where it went only if the lines around it have moved with it. The
passes do not see to that. `Code.Orderly` is what has to be asked of lifted code besides: that no
line directly behind a comparison or a skip is dropped, that no skip follows another, which would
get a guard between the two, and that control does not come in between a store and its repetition.
-/

namespace Unjump

/-! ## Orderly code -/

namespace Code

/-- Control may come to the line otherwise than from the line above it: it is a target, or a skip
may land on it. -/
def Entered (ip : Reg) (code : Code) (line : Nat) : Prop :=
  line ∈ Code.targets code ∨
    ∃ n s, code[n]? = some s ∧ s.writesPointer ip = true ∧ line = n + 2

/-- What the passes take for granted. -/
structure Orderly (ip : Reg) (code : Code) : Prop where
  /-- Control does not come in between a store and the dropped repetition of it. -/
  undisturbed : ∀ s d i e, Stores.Repeats code s d i e → ∀ line, Entered ip code line →
    ¬(s < line ∧ line ≤ d)
  /-- Nothing is dropped directly behind a comparison or a skip. -/
  attached : ∀ n s, code[n]? = some s → s.isCompare = true ∨ s.writesPointer ip = true →
    n + 1 ∉ Stores.deleted code
  /-- No skip stands directly behind another. -/
  apart : ∀ n s s', code[n]? = some s → s.writesPointer ip = true → code[n + 1]? = some s' →
    s'.writesPointer ip = false

end Code

theorem Stmt.IsSkip.writesPointer {ip x : Reg} {s : Stmt} (h : s.IsSkip ip x) :
    s.writesPointer ip = true := by
  rcases h with rfl | rfl <;> simp [Stmt.writesPointer]

/-- The lifted statements that assign to the pointer are skips, by another register. -/
theorem Stmt.Lifted.isSkip_of_writesPointer {ip : Reg} {s : Stmt} (h : s.Lifted ip)
    (hw : s.writesPointer ip = true) : ∃ x, x ≠ ip ∧ s.IsSkip ip x := by
  cases h with
  | store op hd _ _ =>
    rw [Instruction.writesPointer_store hd op] at hw
    cases hw
  | jump _ => cases hw
  | skip hflag hs => exact ⟨_, hflag, hs⟩
  | halt => cases hw

/-! ## Where the passes move lines -/

mutual

theorem Stmt.mapTargets_congr {f g : Nat → Nat} (s : Stmt) (h : ∀ t ∈ s.targets, f t = g t) :
    s.mapTargets f = s.mapTargets g := by
  cases s with
  | goto t => rw [Stmt.mapTargets, Stmt.mapTargets, h t (by simp [Stmt.targets])]
  | branch cond ifTrue ifFalse =>
    rw [Stmt.mapTargets, Stmt.mapTargets, h ifTrue (by simp [Stmt.targets]),
      h ifFalse (by simp [Stmt.targets])]
  | ifThen cond body => rw [Stmt.mapTargets, Stmt.mapTargets, Code.mapTargets_congr body h]
  | doUntil cond body => rw [Stmt.mapTargets, Stmt.mapTargets, Code.mapTargets_congr body h]
  | forUntil var init cond body =>
    rw [Stmt.mapTargets, Stmt.mapTargets, Code.mapTargets_congr body h]
  | _ => rfl

theorem Code.mapTargets_congr {f g : Nat → Nat} (code : List Stmt)
    (h : ∀ t ∈ Code.targets code, f t = g t) : Code.mapTargets f code = Code.mapTargets g code := by
  cases code with
  | nil => rfl
  | cons s rest =>
    rw [Code.targets] at h
    rw [Code.mapTargets, Code.mapTargets,
      Stmt.mapTargets_congr s fun t ht ↦ h t (List.mem_append_left _ ht),
      Code.mapTargets_congr rest fun t ht ↦ h t (List.mem_append_right _ ht)]

end

theorem Stores.length_condense_le (policy : TargetPolicy) (code : Code) :
    (condense policy code).length ≤ code.length := by
  have hle := List.length_filterMap_le id (scan .nothing code)
  rw [length_scan] at hle
  cases policy with
  | preserve => exact hle
  | renumber => rwa [condense, Code.length_mapTargets]

namespace Code

/-- Lifted code after both passes. -/
def prepared (ip : Reg) (code : Code) : Code := Skips.guardAll ip (Stores.condense .renumber code)

/-- Where the passes move a line. -/
def moved (ip : Reg) (code : Code) (n : Nat) : Nat :=
  Skips.shifted ip (Stores.condense .renumber code) (Stores.renumber (Stores.deleted code) n)

/-- The guard that the second pass puts before what the first has made of a line. -/
def guardOf? (ip : Reg) (code : Code) (n : Nat) : Option Reg :=
  Skips.guardAt ip (Stores.condense .renumber code) (Stores.renumber (Stores.deleted code) n)

variable {ip : Reg} {code : Code} {n : Nat} {s : Stmt}

theorem lt_of_mem_targets (hlifted : ∀ s ∈ code, s.Lifted ip) :
    ∀ t ∈ Code.targets code, t < 2 ^ 63 := by
  intro t ht
  obtain ⟨line, s, hs, ht⟩ := mem_targets_iff.mp ht
  exact (hlifted s (List.mem_of_getElem? hs)).lt_of_mem_targets ht

theorem moved_zero (ip : Reg) (code : Code) : moved ip code 0 = 0 := by
  rw [moved, Stores.renumber_zero, Skips.shifted_zero]

theorem moved_succ_of_mem (hn : n ∈ Stores.deleted code) :
    moved ip code (n + 1) = moved ip code n := by
  rw [moved, moved, Stores.renumber_succ_of_mem hn]

theorem moved_succ_of_not_mem (hn : n ∉ Stores.deleted code) :
    moved ip code (n + 1) = moved ip code n + if (guardOf? ip code n).isSome then 2 else 1 := by
  rw [moved, moved, Stores.renumber_succ_of_not_mem hn, Skips.shifted_succ]
  rfl

theorem getElem?_prepared_of_none (hn : code[n]? = none) :
    (prepared ip code)[moved ip code n]? = none :=
  Skips.getElem?_guardAll_of_none (Stores.getElem?_condense_of_none hn)

/-- A line that gets no guard has its statement where it goes. -/
theorem getElem?_prepared (hsize : code.length < 2 ^ 62) (ht : ∀ t ∈ Code.targets code, t < 2 ^ 63)
    (hs : code[n]? = some s) (hn : n ∉ Stores.deleted code) (hg : guardOf? ip code n = none) :
    (prepared ip code)[moved ip code n]? =
      some ((Stores.shorten s).mapTargets (moved ip code)) := by
  have hget := @Skips.getElem?_guardAll ip _ _ _ (Stores.getElem?_condense hs hn)
  rw [show Skips.guardAt ip _ _ = none from hg] at hget
  rw [prepared, moved, hget, Stmt.mapTargets_mapTargets, Option.some.injEq]
  refine Stmt.mapTargets_congr _ fun t hmem ↦ Skips.renumber_eq_shifted ?_
  have hlt := ht t (Code.mem_targets_iff.mpr ⟨n, s, hs, by rwa [Stores.targets_shorten] at hmem⟩)
  have hle : Stores.renumber (Stores.deleted code) t ≤ t := Nat.sub_le _ _
  have hlen := Stores.length_condense_le .renumber code
  have : UInt64.size = 2 ^ 64 := rfl
  omega

/-- A skip that gets a guard stands behind it. -/
theorem getElem?_prepared_of_guard {x y : Reg} (hs : code[n]? = some s) (hskip : s.IsSkip ip x)
    (hn : n ∉ Stores.deleted code) (hg : guardOf? ip code n = some y) :
    (prepared ip code)[moved ip code n]? = some (Skips.guardOf x) ∧
      (prepared ip code)[moved ip code n + 1]? = some (.update .add ip (.reg x)) := by
  have hcond := Stores.getElem?_condense hs hn
  rw [Stores.shorten_of_isSkip hskip] at hcond
  have hget := @Skips.getElem?_guardAll ip _ _ _ hcond
  have hxy := Skips.eq_of_guardAt hcond hg
  rw [show Skips.guardAt ip _ _ = some y from hg] at hget
  cases hxy
  exact hget

/-- Only skips get guards. -/
theorem guardOf?_eq_none (hs : code[n]? = some s) (hn : n ∉ Stores.deleted code)
    (hw : s.writesPointer ip = false) : guardOf? ip code n = none := by
  cases hg : guardOf? ip code n with
  | none => rfl
  | some x =>
    have hskip := Skips.eq_of_guardAt (Stores.getElem?_condense hs hn) hg
    have hw' : ((Stores.shorten s).mapTargets
        (Stores.renumber (Stores.deleted code))).writesPointer ip = true := by
      rw [hskip]
      simp [Stmt.writesPointer]
    rw [Stmt.writesPointer_mapTargets, Stores.writesPointer_shorten, hw] at hw'
    cases hw'

/-- What follows a comparison gets no guard. -/
theorem guardOf?_of_compare {cond : Cond} {x : Reg} (hs : code[n]? = some (.compare cond x))
    (hn : n ∉ Stores.deleted code) : guardOf? ip code (n + 1) = none := by
  rw [guardOf?, Stores.renumber_succ_of_not_mem hn,
    Skips.guardAt_succ (Stores.getElem?_condense hs hn)]
  rfl

/-! ## What becomes of a line -/

/-- What line `n` of lifted code has become in fused code: line `m` has gone to line `ρ m`, and `E`
are the lines that control can come to. -/
inductive Covers (ip : Reg) (code fused : Code) (ρ : Nat → Nat) (E : Nat → Prop) (n : Nat) : Prop
  | off (hs : code[n]? = none) (hf : fused[ρ n]? = none)
  | dropped (hn : n ∈ Stores.deleted code) (hE : E (n + 1)) (hρ : ρ (n + 1) = ρ n)
  | kept {s : Stmt} (hs : code[n]? = some s) (hw : s.writesPointer ip = false)
    (hn : n ∉ Stores.deleted code) (hf : fused[ρ n]? = some ((Stores.shorten s).mapTargets ρ))
    (hE : E (n + 1)) (hρ : ρ (n + 1) = ρ n + 1)
  | skip {s : Stmt} {x : Reg} (hs : code[n]? = some s) (hskip : s.IsSkip ip x)
    (hf : fused[ρ n]? = some (.update .add ip (.reg x)))
    (hE₁ : E (n + 1)) (hρ₁ : ρ (n + 1) = ρ n + 1) (hE₂ : E (n + 2)) (hρ₂ : ρ (n + 2) = ρ n + 2)
  | guarded {s : Stmt} {x : Reg} (hs : code[n]? = some s) (hskip : s.IsSkip ip x)
    (hf₀ : fused[ρ n]? = some (Skips.guardOf x))
    (hf₁ : fused[ρ n + 1]? = some (.update .add ip (.reg x)))
    (hE₁ : E (n + 1)) (hρ₁ : ρ (n + 1) = ρ n + 2) (hE₂ : E (n + 2)) (hρ₂ : ρ (n + 2) = ρ n + 3)
  | guardFused {s : Stmt} {x : Reg} {t : Nat} (hs : code[n]? = some s) (hskip : s.IsSkip ip x)
    (hjump : code[n + 1]? = some (.goto t))
    (hf : fused[ρ n]? = some (.branch ⟨.eq, .reg x, .lit 1⟩ (ρ n + 1) (ρ t)))
    (hE : E (n + 2)) (hρ : ρ (n + 2) = ρ n + 1)
  | fused {s : Stmt} {cond : Cond} {x : Reg} {t : Nat}
    (hcompare : code[n]? = some (.compare cond x)) (hs : code[n + 1]? = some s)
    (hskip : s.IsSkip ip x) (hjump : code[n + 2]? = some (.goto t))
    (hf : fused[ρ n]? = some (.branch cond (ρ n + 1) (ρ t)))
    (hE : E (n + 3)) (hρ : ρ (n + 3) = ρ n + 1) (hinside : ¬E (n + 1))

section

variable {fused : Code} {τ : Nat → Nat} {E : Nat → Prop}

theorem not_skipAt_of_skip {x flag : Reg} {m target : Nat} {cond : Cond}
    (hs : code[m]? = some (.update .add ip (.reg x))) :
    ¬SkipAt ip code m cond flag target := by
  intro hp
  rw [hp.compare] at hs
  cases hs

/-- The statement behind a skip gets no guard and is not dropped, so it goes where the skip may
land. -/
theorem Orderly.behind_skip (ho : Orderly ip code) (hs : code[n]? = some s)
    (hw : s.writesPointer ip = true) :
    n + 1 ∉ Stores.deleted code ∧ guardOf? ip code (n + 1) = none ∧
      moved ip code (n + 2) = moved ip code (n + 1) + 1 := by
  have hn := ho.attached n s hs (.inr hw)
  have hg : guardOf? ip code (n + 1) = none := by
    cases hs' : code[n + 1]? with
    | some s' => exact guardOf?_eq_none hs' hn (ho.apart n s s' hs hw hs')
    | none =>
      rw [guardOf?, Skips.guardAt, Stores.getElem?_condense_of_none hs', Option.bind_none, ite_self]
  refine ⟨hn, hg, ?_⟩
  rw [show n + 2 = n + 1 + 1 from rfl, moved_succ_of_not_mem hn, hg]
  rfl

/-- A jump of prepared code was a jump of lifted code. -/
theorem exists_goto_of_prepared (hsize : code.length < 2 ^ 62)
    (ht : ∀ t ∈ Code.targets code, t < 2 ^ 63) (hn : n ∉ Stores.deleted code)
    (hg : guardOf? ip code n = none) {t' : Nat}
    (hs : (prepared ip code)[moved ip code n]? = some (.goto t')) :
    ∃ t, t' = moved ip code t ∧ code[n]? = some (.goto t) := by
  cases hline : code[n]? with
  | none =>
    rw [getElem?_prepared_of_none hline] at hs
    cases hs
  | some s =>
    rw [getElem?_prepared hsize ht hline hn hg, Option.some.injEq] at hs
    obtain ⟨t, rfl, heq⟩ := Stmt.mapTargets_eq_goto hs
    exact ⟨t, rfl, by rw [Stores.eq_of_shorten heq nofun]⟩

theorem Orderly.covers_plain (ho : Orderly ip code) (hlifted : ∀ s ∈ code, s.Lifted ip)
    (hsize : code.length < 2 ^ 62) (ht : ∀ t ∈ Code.targets code, t < 2 ^ 63)
    (h : FusedTo ip (prepared ip code) fused τ E) (hn : E (moved ip code n))
    (hs : code[n]? = some s) (hdel : n ∉ Stores.deleted code) (hw : s.writesPointer ip = false) :
    Covers ip code fused (fun m ↦ τ (moved ip code m)) (fun m ↦ E (moved ip code m)) n := by
  have hg := guardOf?_eq_none hs hdel hw
  have hget := getElem?_prepared hsize ht hs hdel hg
  have hsucc : moved ip code (n + 1) = moved ip code n + 1 := by
    rw [moved_succ_of_not_mem hdel, hg]
    rfl
  rcases h.lines _ hn with ⟨hf, hE, hτ⟩ | ⟨cond, x, t', hp, hf, hE, hτ, hinside⟩
  · refine .kept hs hw hdel ?_ (by rwa [hsucc]) (by rw [hsucc, hτ])
    rw [hf, hget, Option.map_some, Stmt.mapTargets_mapTargets]
  · have hcompare := hp.compare
    rw [hget, Option.some.injEq] at hcompare
    have hshort := (Stmt.mapTargets_eq_iff_of_dest? (by exact nofun)).mp hcompare
    rw [Stores.eq_of_shorten hshort nofun] at hs
    -- the skip and the jump are the next two lines of lifted code
    have hdel₁ := ho.attached n _ hs (.inl rfl)
    have hg₁ : guardOf? ip code (n + 1) = none := guardOf?_of_compare hs hdel
    have hskip := hp.skip
    rw [← hsucc] at hskip
    cases hs₁ : code[n + 1]? with
    | none =>
      rw [getElem?_prepared_of_none hs₁] at hskip
      cases hskip
    | some s₁ =>
      rw [getElem?_prepared hsize ht hs₁ hdel₁ hg₁, Option.some.injEq] at hskip
      have hisSkip := (hlifted s₁ (List.mem_of_getElem? hs₁)).isSkip_of_shorten
        ((Stmt.mapTargets_eq_iff_of_dest? (by exact nofun)).mp hskip)
      obtain ⟨hdel₂, hg₂, hsucc₂⟩ := ho.behind_skip hs₁ hisSkip.writesPointer
      have hsucc₁ : moved ip code (n + 2) = moved ip code n + 2 := by
        rw [show n + 2 = n + 1 + 1 from rfl, moved_succ_of_not_mem hdel₁, hg₁, hsucc]
        rfl
      have hjump := hp.jump
      rw [← hsucc₁] at hjump
      obtain ⟨t, rfl, hgoto⟩ := exists_goto_of_prepared hsize ht hdel₂ hg₂ hjump
      have hsucc₃ : moved ip code (n + 3) = moved ip code n + 3 := by
        rw [show n + 3 = n + 1 + 2 from rfl, hsucc₂, hsucc₁]
      exact .fused hs hs₁ hisSkip hgoto hf (by rwa [hsucc₃]) (by rw [hsucc₃, hτ]) (by rwa [hsucc])

theorem Orderly.covers_skip (ho : Orderly ip code) (hsize : code.length < 2 ^ 62)
    (ht : ∀ t ∈ Code.targets code, t < 2 ^ 63) (h : FusedTo ip (prepared ip code) fused τ E)
    (hn : E (moved ip code n)) (hs : code[n]? = some s) (hdel : n ∉ Stores.deleted code) {x : Reg}
    (hskip : s.IsSkip ip x) :
    Covers ip code fused (fun m ↦ τ (moved ip code m)) (fun m ↦ E (moved ip code m)) n := by
  have hw : (Stmt.update .add ip (.reg x)).writesPointer ip = true := by simp [Stmt.writesPointer]
  obtain ⟨hdel₁, hg₁, hsucc₁⟩ := ho.behind_skip hs hskip.writesPointer
  cases hg : guardOf? ip code n with
  | none =>
    have hget := getElem?_prepared hsize ht hs hdel hg
    rw [Stores.shorten_of_isSkip hskip] at hget
    have hsucc : moved ip code (n + 1) = moved ip code n + 1 := by
      rw [moved_succ_of_not_mem hdel, hg]
      rfl
    obtain ⟨hE₂, hτ₂⟩ := h.skips _ _ hn hget hw
    rcases h.lines _ hn with ⟨hf, hE₁, hτ₁⟩ | ⟨_, _, _, hp, -⟩
    · rw [hget] at hf
      rw [hsucc] at hsucc₁
      exact .skip hs hskip hf (by rwa [hsucc]) (by rw [hsucc, hτ₁]) (by rwa [hsucc₁])
        (by rw [hsucc₁, hτ₂])
    · exact absurd hp (not_skipAt_of_skip hget)
  | some y =>
    obtain ⟨hget₀, hget₁⟩ := getElem?_prepared_of_guard hs hskip hdel hg
    have hsucc : moved ip code (n + 1) = moved ip code n + 2 := by
      rw [moved_succ_of_not_mem hdel, hg]
      rfl
    rw [hsucc] at hsucc₁
    rcases h.lines _ hn with ⟨hf₀, hE₁, hτ₁⟩ | ⟨cond, flag, t', hp, hf, hE₃, hτ₃, -⟩
    · rw [hget₀] at hf₀
      obtain ⟨hE₃, hτ₃⟩ := h.skips _ _ hE₁ hget₁ hw
      rcases h.lines _ hE₁ with ⟨hf₁, hE₂, hτ₂⟩ | ⟨_, _, _, hp, -⟩
      · rw [hget₁, hτ₁] at hf₁
        exact .guarded hs hskip hf₀ hf₁ (by rwa [hsucc]) (by rw [hsucc, hτ₂, hτ₁])
          (by rwa [hsucc₁]) (by rw [hsucc₁, hτ₃, hτ₁])
      · exact absurd hp (not_skipAt_of_skip hget₁)
    · have hcompare := hp.compare
      rw [hget₀] at hcompare
      cases hcompare
      have hjump := hp.jump
      rw [← hsucc] at hjump
      obtain ⟨t, rfl, hgoto⟩ := exists_goto_of_prepared hsize ht hdel₁ hg₁ hjump
      exact .guardFused hs hskip hgoto hf (by rwa [hsucc₁]) (by rw [hsucc₁, hτ₃])

/-- **Every line of lifted code that control can come to is covered.** -/
theorem Orderly.covers (ho : Orderly ip code) (hlifted : ∀ s ∈ code, s.Lifted ip)
    (hsize : code.length < 2 ^ 62) (h : FusedTo ip (prepared ip code) fused τ E)
    (hn : E (moved ip code n)) :
    Covers ip code fused (fun m ↦ τ (moved ip code m)) (fun m ↦ E (moved ip code m)) n := by
  have ht := lt_of_mem_targets hlifted
  cases hs : code[n]? with
  | none =>
    refine .off hs ?_
    rcases h.lines _ hn with ⟨hget, -⟩ | ⟨_, _, _, hp, -⟩
    · rw [hget, getElem?_prepared_of_none hs, Option.map_none]
    · have hcompare := hp.compare
      rw [getElem?_prepared_of_none hs] at hcompare
      cases hcompare
  | some s =>
    by_cases hdel : n ∈ Stores.deleted code
    · exact .dropped hdel (by rwa [moved_succ_of_mem hdel]) (by rw [moved_succ_of_mem hdel])
    · cases hw : s.writesPointer ip with
      | false => exact ho.covers_plain hlifted hsize ht h hn hs hdel hw
      | true =>
        obtain ⟨x, -, hskip⟩ := (hlifted s (List.mem_of_getElem? hs)).isSkip_of_writesPointer hw
        exact ho.covers_skip hsize ht h hn hs hdel hskip

end

end Code

end Unjump
