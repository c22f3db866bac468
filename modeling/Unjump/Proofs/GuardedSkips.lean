import Unjump.Proofs.Tracking

/-!
# Guards keep what code computes

A guard `x = x == 1` changes nothing where `x` holds 0 or 1. It moves the lines behind it, and two
kinds of transfers have to follow: a target moves along with the line it names, but a skip goes on
by the word it adds, which stays what it was.

## Where this fails

A skip by 1 goes past the next line, so it lands on the wrong line if a guard was put before that
line. Only a skip gets a guard, and it gets one whenever another skip stands directly before it. So
the one layout that guards disturb is a skip by 1 directly before a skip: instead of past the second
skip, control comes to it. In every other layout, a skip in the first line or behind a comparison
into another register included, code and guarded code agree off the pointer.

## The simulation

Guarded code takes a step more at every guard, and is otherwise at the line where the line of the
code has gone (`Skips.shifted`). What is assumed of the skips is assumed of the whole run
(`Code.EverySkip`), so that it is known of the rest of the run at every line.
-/

namespace Unjump

namespace Code

variable {ip : Reg} {code : Code} {line line' n : Nat} {r r' : Registers}

/-- Every skip that control comes to, from a line on, has a property of its line, of the registers
there and of the register it adds. -/
def EverySkip (ip : Reg) (code : Code) (line : Nat) (r : Registers)
    (P : Nat → Registers → Reg → Prop) : Prop :=
  ∀ n line' r' x, Reaches ip code line r n line' r' →
    code[line']? = some (.update .add ip (.reg x)) → P line' r' x

namespace EverySkip

variable {P : Nat → Registers → Reg → Prop}

theorem of_reaches (h : EverySkip ip code line r P) (hr : Reaches ip code line r n line' r') :
    EverySkip ip code line' r' P :=
  fun m line'' r'' x hr' ↦ h (n + m) line'' r'' x (hr.trans hr')

theorem of_none (hs : code[line]? = none) : EverySkip ip code line r P := by
  intro n line' r' x hr hx
  cases hr with
  | refl =>
    rw [hs] at hx
    cases hx
  | step hs' _ _ =>
    rw [hs] at hs'
    cases hs'

/-- To know it of a run is to know it of the first statement and of the rest of the run. -/
theorem of_takes {s : Stmt} (hs : code[line]? = some s)
    (hfirst : ∀ x, s = .update .add ip (.reg x) → P line r x) {next : Nat}
    (ht : Takes (s.execAt ip line) r n (some next) r') (hrest : EverySkip ip code next r' P) :
    EverySkip ip code line r P := by
  intro m line' r'' x hr hx
  cases hr with
  | refl =>
    rw [hs] at hx
    exact hfirst x (Option.some.inj hx)
  | step hs' ht' hr =>
    rw [hs] at hs'
    cases hs'
    obtain ⟨-, hnext, rfl⟩ := ht.unique ht'
    cases hnext
    exact hrest _ line' r'' x hr hx

end EverySkip

/-- A skip that adds 1 does not stand directly before another skip. -/
def SkipApart (ip : Reg) (code : Code) (line : Nat) (r : Registers) (x : Reg) : Prop :=
  r.get x = 1 → ∀ y, code[line + 1]? ≠ some (.update .add ip (.reg y))

end Code

/-- What changes alike stays the same off the pointer. -/
theorem Registers.SameChange.agreeOff {ip : Reg} {dest? : Option Reg} {r q r' q' : Registers}
    (hchange : SameChange dest? r q r' q') (h : r.AgreeOff ip q) : r'.AgreeOff ip q' := by
  intro i hi
  by_cases hd : dest? = some i
  · exact hchange.same i hd
  · obtain ⟨hr, hq⟩ := hchange.frame i hd
    rw [hr, hq, h i hi]

namespace Skips

/-! ## Code to which guards are added -/

/-- Code without structured statements in which only skips have to do with the pointer. -/
structure Plain (ip : Reg) (code : Code) : Prop where
  flat : ∀ s ∈ code, s.isStructured = false
  reads : ∀ s ∈ code, s.writesPointer ip = false → s.reads ip = false
  skips : ∀ s ∈ code, s.writesPointer ip = true → ∃ x, x ≠ ip ∧ s = .update .add ip (.reg x)
  short : code.length < 2 ^ 62
  targets : ∀ t ∈ Code.targets code, t < 2 ^ 63

theorem plain_condense {p : Program} {lifted : Code} (hsize : p.size < 2 ^ 62)
    (hlift : p.lift = .ok lifted) (policy : TargetPolicy) :
    Plain p.ip (Stores.condense policy lifted) where
  flat s hs := by
    obtain ⟨s₀, hs₀, g, rfl⟩ := Stores.exists_of_mem_condense hs
    rw [Stmt.isStructured_mapTargets, Stores.isStructured_shorten,
      (Program.lifted_of_mem hlift hs₀).isStructured]
  reads s hs hw := by
    obtain ⟨s₀, hs₀, g, rfl⟩ := Stores.exists_of_mem_condense hs
    rw [Stmt.writesPointer_mapTargets, Stores.writesPointer_shorten] at hw
    rw [Stmt.reads_mapTargets, Stores.reads_shorten,
      (Program.lifted_of_mem hlift hs₀).reads_pointer hw]
  skips s hs hw := by
    obtain ⟨s₀, hs₀, g, rfl⟩ := Stores.exists_of_mem_condense hs
    rw [Stmt.writesPointer_mapTargets, Stores.writesPointer_shorten] at hw
    obtain ⟨x, hx, hskip⟩ := (Program.lifted_of_mem hlift hs₀).isSkip_of_writesPointer hw
    refine ⟨x, hx, ?_⟩
    rw [Stores.shorten_of_isSkip hskip]
    rfl
  short := by
    have hle := Stores.length_condense_le policy lifted
    rw [Program.length_of_lift hlift] at hle
    omega
  targets t ht := by
    obtain ⟨t₀, ht₀, hle⟩ := Stores.le_of_mem_targets_condense ht
    have hlt := Code.lt_of_mem_targets (fun s hs ↦ Program.lifted_of_mem hlift hs) t₀ ht₀
    omega

namespace Plain

variable {ip : Reg} {code : Code} {n : Nat} {s : Stmt}

/-- What is no skip gets no guard, and its targets move without wrapping. -/
theorem getElem?_guardAll (h : Plain ip code) (hs : code[n]? = some s)
    (hw : s.writesPointer ip = false) :
    (guardAll ip code)[shifted ip code n]? = some (s.mapTargets (shifted ip code)) ∧
      shifted ip code (n + 1) = shifted ip code n + 1 := by
  have hguard : guardAt ip code n = none := by
    cases hx : guardAt ip code n with
    | none => rfl
    | some x =>
      rw [eq_of_guardAt hs hx, Stmt.writesPointer, beq_self_eq_true] at hw
      cases hw
  have hget := @Skips.getElem?_guardAll ip code n s hs
  have hsucc := shifted_succ ip code n
  rw [hguard] at hget hsucc
  refine ⟨?_, hsucc⟩
  rw [hget, Option.some.injEq]
  refine Stmt.mapTargets_congr s fun t ht ↦ renumber_eq_shifted ?_
  have hshort := h.short
  have hlt := h.targets t (Code.mem_targets_iff.mpr ⟨n, s, hs, ht⟩)
  have hsize : UInt64.size = 2 ^ 64 := rfl
  omega

/-- Behind a skip the lines stay together, unless the next line is a skip too. -/
theorem shifted_add_two {x : Reg} (hs : code[n]? = some (.update .add ip (.reg x)))
    (hnext : ∀ y, code[n + 1]? ≠ some (.update .add ip (.reg y))) :
    shifted ip code (n + 2) = shifted ip code (n + 1) + 1 := by
  have hguard : guardAt ip code (n + 1) = none := by
    cases hy : guardAt ip code (n + 1) with
    | none => rfl
    | some y =>
      cases hs' : code[n + 1]? with
      | some s' => exact absurd (hs'.trans (congrArg some (eq_of_guardAt hs' hy))) (hnext y)
      | none =>
        rw [guardAt_succ hs, hs'] at hy
        cases hy
  have hsucc := shifted_succ ip code (n + 1)
  rwa [hguard] at hsucc

/-! ## The simulation -/

/-- The state of guarded code that belongs to a state of the code: the line is where the line of the
code has gone, and from there on skips are as assumed. -/
structure Follows (ip : Reg) (code : Code) (line' : Nat) (q : Registers) (line : Nat)
    (r : Registers) : Prop where
  moved : line' = shifted ip code line
  agree : q.AgreeOff ip r
  flags : Code.EverySkip ip code line r fun _ r x ↦ r.get x = 0 ∨ r.get x = 1
  apart : Code.EverySkip ip code line r (Code.SkipApart ip code)

variable {line line' next : Nat} {q r q' r' : Registers}

theorem Follows.of_reaches {k : Nat} (h : Follows ip code line' q line r)
    (hr : Code.Reaches ip code line r k next r') (hagree : q'.AgreeOff ip r') :
    Follows ip code (shifted ip code next) q' next r' :=
  ⟨rfl, hagree, h.flags.of_reaches hr, h.apart.of_reaches hr⟩

/-- At what is no skip both codes take the same step. -/
theorem lockstep_statement (h : Plain ip code) (hf : Follows ip code line' q line r)
    (hs : code[line]? = some s) (hw : s.writesPointer ip = false) :
    Code.Lockstep ip (guardAll ip code) code (Follows ip code)
      (fun q r ↦ q.AgreeOff ip r) line' q line r := by
  have hmem := List.mem_of_getElem? hs
  obtain ⟨hget, hsucc⟩ := h.getElem?_guardAll hs hw
  rw [← hf.moved] at hget hsucc
  have hreads (i : Reg) (hi : s.reads i = true) : q.get i = r.get i := by
    refine hf.agree i ?_
    rintro rfl
    rw [h.reads s hmem hw] at hi
    cases hi
  obtain ⟨flow, q', r', htq, htr, hchange, -⟩ := Stmt.takes_of_agree ip (h.flat s hmem) hreads
  have hagree := hchange.agreeOff hf.agree
  have ht : Takes (s.execAt ip line) r 1 (flow.next? (line + 1)) r' :=
    (takes_execAt_iff hw).mpr ⟨flow, rfl, htr⟩
  have ht' : Takes ((s.mapTargets (shifted ip code)).execAt ip line') q 1
      ((flow.next? (line + 1)).map (shifted ip code)) q' :=
    (takes_execAt_mapTargets_iff hw hsucc).mpr ⟨_, rfl, (takes_execAt_iff hw).mpr ⟨flow, rfl, htq⟩⟩
  cases hnext : flow.next? (line + 1) with
  | none =>
    rw [hnext] at ht ht'
    exact .inl ⟨1, 1, q', r', .stop hget ht', .stop hs ht, Nat.le_refl 1, hagree⟩
  | some next =>
    rw [hnext] at ht ht'
    exact .inr ⟨1, 1, _, q', next, r', Nat.one_pos, Nat.le_refl 1, .single hget ht', .single hs ht,
      hf.of_reaches (.single hs ht) hagree⟩

/-- From a skip both codes get to the same lines, and a skip that has a guard comes behind it. -/
theorem lockstep_skip (h : Plain ip code) (hf : Follows ip code line' q line r)
    {x : Reg} (hx : x ≠ ip) (hs : code[line]? = some (.update .add ip (.reg x))) :
    Code.Lockstep ip (guardAll ip code) code (Follows ip code)
      (fun q r ↦ q.AgreeOff ip r) line' q line r := by
  have hshort := h.short
  have hline := (List.getElem?_eq_some_iff.mp hs).1
  have hflag : r.get x = 0 ∨ r.get x = 1 := hf.flags 0 line r x .refl hs
  have hflag' : q.get x = 0 ∨ q.get x = 1 := by rwa [hf.agree x hx]
  have ht : Takes ((Stmt.update .add ip (.reg x)).execAt ip line) r 1 _ _ :=
    Code.takes_skip_of_flag hx (by omega) hflag
  have hroom : shifted ip code line + 3 < 2 ^ 63 := by
    have hbelow := (Lines.below_le Option.isSome (unguarded ip code) line).1
    rw [shifted, inserted]
    omega
  -- where the skip goes on, the line has moved as far as the skip itself
  have hlands {m : Nat} (hm : shifted ip code (line + 1) = m + 1) :
      shifted ip code (if r.get x = 1 then line + 2 else line + 1) =
        if r.get x = 1 then m + 2 else m + 1 := by
    split
    · next h1 => rw [shifted_add_two hs (hf.apart 0 line r x .refl hs h1), hm]
    · exact hm
  have hagree {w : Word} {w' : Word} : (q.set ip w).AgreeOff ip (r.set ip w') :=
    hf.agree.set_both w w'
  have hget := @Skips.getElem?_guardAll ip code line _ hs
  have hsucc := shifted_succ ip code line
  rw [← hf.moved] at hget hroom hsucc
  cases hguard : guardAt ip code line with
  | none =>
    rw [hguard] at hget hsucc
    have ht' : Takes ((Stmt.update .add ip (.reg x)).execAt ip line') q 1 _ _ :=
      Code.takes_skip_of_flag hx (by omega) hflag'
    rw [hf.agree x hx, ← hlands hsucc] at ht'
    exact .inr ⟨1, 1, _, _, _, _, Nat.one_pos, Nat.le_refl 1, .single hget ht', .single hs ht,
      hf.of_reaches (.single hs ht) hagree⟩
  | some y =>
    rw [hguard] at hget hsucc
    cases eq_of_guardAt hs hguard
    -- the guard stores what the register holds
    have htg : Takes ((Stmt.compare ⟨.eq, .reg x, .lit 1⟩ x).execAt ip line') q 1 (some (line' + 1)) q := by
      simpa only [eval_guard hflag', Registers.set_get_self] using
        Stmt.takes_compare q ⟨.eq, .reg x, .lit 1⟩ x
    have ht' : Takes ((Stmt.update .add ip (.reg x)).execAt ip (line' + 1)) q 1 _ _ :=
      Code.takes_skip_of_flag hx (by omega) hflag'
    rw [hf.agree x hx, ← hlands hsucc] at ht'
    exact .inr ⟨1 + (1 + 0), 1, _, _, _, _, Nat.one_pos, by decide,
      .step hget.1 htg (.step hget.2 ht' .refl), .single hs ht,
      hf.of_reaches (.single hs ht) hagree⟩

theorem lockstep (h : Plain ip code) (hf : Follows ip code line' q line r) :
    Code.Lockstep ip (guardAll ip code) code (Follows ip code)
      (fun q r ↦ q.AgreeOff ip r) line' q line r := by
  cases hs : code[line]? with
  | none =>
    have hend : (guardAll ip code)[line']? = none := by
      rw [hf.moved]
      exact getElem?_guardAll_of_none hs
    exact .inl ⟨0, 0, q, r, .off hend, .off hs, Nat.le_refl 0, hf.agree⟩
  | some s =>
    cases hw : s.writesPointer ip with
    | false => exact h.lockstep_statement hf hs hw
    | true =>
      obtain ⟨x, hx, rfl⟩ := h.skips s (List.mem_of_getElem? hs) hw
      exact h.lockstep_skip hf hx hs

end Plain

end Skips

/-! ## Runs -/

/-- **Where skips add 0 or 1 and none that adds 1 stands directly before another, guards keep what
condensed code computes**: guarded code halts exactly if the code does, with the same word in every
register but the pointer. -/
theorem Program.haltsWith_guardAll {p : Program} {lifted : Code} (hsize : p.size < 2 ^ 62)
    (hlift : p.lift = .ok lifted) (policy : TargetPolicy) (r : Registers)
    (hflags : Code.EverySkip p.ip (Stores.condense policy lifted) 0 r
      fun _ r x ↦ r.get x = 0 ∨ r.get x = 1)
    (hapart : Code.EverySkip p.ip (Stores.condense policy lifted) 0 r
      (Code.SkipApart p.ip (Stores.condense policy lifted))) :
    ((∃ q', Code.HaltsWith p.ip (Skips.guardAll p.ip (Stores.condense policy lifted)) r q') ↔
      ∃ r', Code.HaltsWith p.ip (Stores.condense policy lifted) r r') ∧
    ∀ q' r', Code.HaltsWith p.ip (Skips.guardAll p.ip (Stores.condense policy lifted)) r q' →
      Code.HaltsWith p.ip (Stores.condense policy lifted) r r' → q'.AgreeOff p.ip r' := by
  have hplain := Skips.plain_condense hsize hlift policy
  generalize Stores.condense policy lifted = code at *
  have hstart : Skips.Plain.Follows p.ip code 0 r 0 r :=
    ⟨(Skips.shifted_zero p.ip code).symm, .refl p.ip r, hflags, hapart⟩
  have forth {n : Nat} {q' : Registers} (he : Code.Ends p.ip (Skips.guardAll p.ip code) 0 r n q') :
      ∃ m r', Code.Ends p.ip code 0 r m r' ∧ q'.AgreeOff p.ip r' := by
    obtain ⟨m, r', he', -, hagree⟩ := Code.ends_of_lockstep hplain.lockstep hstart he
    exact ⟨m, r', he', hagree⟩
  have back {n : Nat} {r' : Registers} (he : Code.Ends p.ip code 0 r n r') :
      ∃ m q', Code.Ends p.ip (Skips.guardAll p.ip code) 0 r m q' ∧ q'.AgreeOff p.ip r' :=
    Code.ends_back_of_lockstep hplain.lockstep hstart he
  simp only [Code.haltsWith_iff]
  refine ⟨⟨?_, ?_⟩, ?_⟩
  · rintro ⟨q', n, he⟩
    obtain ⟨m, r', he', -⟩ := forth he
    exact ⟨r', m, he'⟩
  · rintro ⟨r', n, he⟩
    obtain ⟨m, q', he', -⟩ := back he
    exact ⟨q', m, he'⟩
  · rintro q' r' ⟨n, he⟩ ⟨m, he'⟩
    obtain ⟨m', r'', he'', hagree⟩ := forth he
    obtain ⟨-, rfl⟩ := he'.unique he''
    exact hagree

namespace Skips

/-- Skips in its first line by 1, and after an assignment by 0. -/
def skipFirst : Program :=
  ⟨5, #[⟨.addr, 5, 1, 5⟩, ⟨.seti, 9, 0, 0⟩, ⟨.addr, 5, 2, 5⟩, ⟨.seti, 4, 0, 0⟩], by decide⟩

/-- To know something of both skips is to know it of every skip that runs. -/
theorem everySkip_skipFirst {P : Nat → Registers → Reg → Prop}
    (h₀ : P 0 ⟨#v[0, 1, 0, 0, 0, 0]⟩ 1) (h₂ : P 2 ⟨#v[0, 1, 0, 0, 0, 1]⟩ 2) :
    Code.EverySkip 5 [.update .add 5 (.reg 1), .assign 0 (.lit 9), .update .add 5 (.reg 2),
      .assign 0 (.lit 4)] 0 ⟨#v[0, 1, 0, 0, 0, 0]⟩ P := by
  have ht₀ : Takes ((Stmt.update .add 5 (.reg 1)).execAt 5 0) ⟨#v[0, 1, 0, 0, 0, 0]⟩ 1 _ _ :=
    Code.takes_skip_of_flag (by decide) (by decide) (by decide)
  have ht₂ : Takes ((Stmt.update .add 5 (.reg 2)).execAt 5 2) ⟨#v[0, 1, 0, 0, 0, 1]⟩ 1 _ _ :=
    Code.takes_skip_of_flag (by decide) (by decide) (by decide)
  have ht₃ : Takes ((Stmt.assign 0 (.lit 4)).execAt 5 3) ⟨#v[0, 1, 0, 0, 0, 2]⟩ 1 _ _ :=
    Stmt.takes_assign _ (by decide) _
  refine .of_takes rfl (fun x hx ↦ ?_) ht₀ (.of_takes rfl (fun x hx ↦ ?_) ht₂
    (.of_takes rfl nofun ht₃ (.of_none rfl)))
  · cases hx
    exact h₀
  · cases hx
    exact h₂

end Skips

theorem Program.haltsWith_guardAll_skipFirst :
    ∃ lifted, Skips.skipFirst.lift = .ok lifted ∧
      ∃ q', Code.HaltsWith 5 (Skips.guardAll 5 (Stores.condense .renumber lifted))
        ⟨#v[0, 1, 0, 0, 0, 0]⟩ q' ∧ q'.get 0 = 4 := by
  obtain ⟨hiff, hagree⟩ := haltsWith_guardAll (p := Skips.skipFirst) (by decide) rfl .renumber
    ⟨#v[0, 1, 0, 0, 0, 0]⟩ (Skips.everySkip_skipFirst (.inr rfl) (.inl rfl))
    (Skips.everySkip_skipFirst (fun _ ↦ nofun) fun h ↦ absurd h (by decide))
  have hhalts : Code.HaltsWith 5 [.update .add 5 (.reg 1), .assign 0 (.lit 9),
      .update .add 5 (.reg 2), .assign 0 (.lit 4)] ⟨#v[0, 1, 0, 0, 0, 0]⟩
      ⟨#v[4, 1, 0, 0, 0, 2]⟩ := ⟨3, 0, by decide +kernel⟩
  obtain ⟨q', hq'⟩ := hiff.mpr ⟨_, hhalts⟩
  exact ⟨_, rfl, q', hq', hagree _ _ hq' hhalts 0 (by decide)⟩

/-- Skips by 1 past another skip. -/
def Skips.skipPastSkip : Program :=
  ⟨5, #[⟨.seti, 1, 0, 1⟩, ⟨.addr, 5, 1, 5⟩, ⟨.addr, 5, 2, 5⟩, ⟨.seti, 7, 0, 0⟩], by decide⟩

/-- That the skips that run add 0 or 1 is not enough: with a guard before the second skip, the first
one comes to it instead of past it. -/
theorem Program.haltsWith_guardAll_skipPastSkip :
    ∃ lifted, Skips.skipPastSkip.lift = .ok lifted ∧
      Code.EverySkip 5 (Stores.condense .renumber lifted) 0 ⟨#v[0, 0, 1, 0, 0, 0]⟩
        (fun _ r x ↦ r.get x = 0 ∨ r.get x = 1) ∧
      Code.HaltsWith 5 (Stores.condense .renumber lifted) ⟨#v[0, 0, 1, 0, 0, 0]⟩
        ⟨#v[7, 1, 1, 0, 0, 2]⟩ ∧
      Code.HaltsWith 5 (Skips.guardAll 5 (Stores.condense .renumber lifted))
        ⟨#v[0, 0, 1, 0, 0, 0]⟩ ⟨#v[0, 1, 1, 0, 0, 5]⟩ := by
  refine ⟨_, rfl, ?_, ⟨3, 0, by decide +kernel⟩, ⟨4, 0, by decide +kernel⟩⟩
  have ht₀ : Takes ((Stmt.assign 1 (.lit 1)).execAt 5 0) ⟨#v[0, 0, 1, 0, 0, 0]⟩ 1 _ _ :=
    Stmt.takes_assign _ (by decide) _
  have ht₁ : Takes ((Stmt.update .add 5 (.reg 1)).execAt 5 1) ⟨#v[0, 1, 1, 0, 0, 0]⟩ 1 _ _ :=
    Code.takes_skip_of_flag (by decide) (by decide) (by decide)
  have ht₃ : Takes ((Stmt.assign 0 (.lit 7)).execAt 5 3) ⟨#v[0, 1, 1, 0, 0, 2]⟩ 1 _ _ :=
    Stmt.takes_assign _ (by decide) _
  refine .of_takes rfl nofun ht₀ (.of_takes rfl (fun x hx ↦ ?_) ht₁
    (.of_takes rfl nofun ht₃ (.of_none rfl)))
  cases hx
  exact .inr rfl

end Unjump
