import Unjump.Proofs.Retargeting

/-!
# How control gets into a fold

The lines that a fold takes away can be entered through its first line, and the search for folds
sees to it that no transfer of another line names one of them (`Pattern.sealed_of_find?`). But
control also moves by skips, which name no line. A skip over one line lands on the second line of a
fold if it stands directly before the first, and nothing in the search looks there.

This is the only way in: along runs whose assignments to the pointer are skips by 0 or 1 line,
control gets into a fold from the side exactly when it comes to a skip by one line directly before
the fold. So a fold is entered at its first line only if the line before is no skip. Where it is
one, folding may change what the code does, as with `Pattern.skipIntoBranch`.
-/

namespace Unjump

/-! ## Skips by flags -/

theorem Word.eq_of_line?_ofNat {m n : Nat} (hm : m ≤ 2 ^ 63)
    (h : Word.line? (Int64.ofNat m) = some n) : n = m := by
  rcases Nat.lt_or_eq_of_le hm with hlt | rfl
  · rw [Word.line?_ofNat hlt] at h
    exact (Option.some.inj h).symm
  · cases h

/-- The word that a skip adds to the pointer at a line: if it skips by the pointer itself, that is
the line. -/
def Registers.skipped (r : Registers) (ip : Reg) (line : Nat) (x : Reg) : Word :=
  (r.set ip (Int64.ofNat line)).get x

theorem Registers.skipped_of_ne {r : Registers} {ip x : Reg} (h : x ≠ ip) (line : Nat) :
    r.skipped ip line x = r.get x :=
  r.get_set_of_ne h.symm _

/-- A skip goes on past its line by the word it adds. -/
theorem takes_skip_iff {ip x : Reg} {line n : Nat} {r r' : Registers} {next? : Option Nat} :
    Takes ((Stmt.update .add ip (.reg x)).execAt ip line) r n next? r' ↔
      n = 1 ∧ r' = r.set ip (Int64.ofNat line + r.skipped ip line x) ∧
        next? = Word.line? (Int64.ofNat line + r.skipped ip line x + 1) := by
  rw [takes_execAt_skip_iff (by simp [Stmt.writesPointer])]
  have hexec : Takes ((Stmt.update .add ip (.reg x)).exec ip) (r.set ip (Int64.ofNat line)) 1 .next
      (r.set ip (Int64.ofNat line + r.skipped ip line x)) := by
    refine Stmt.takes_of_tick fun left ↦ ?_
    rw [Stmt.exec, Registers.get_set_self, Registers.set_set_self]
    rfl
  constructor
  · rintro ⟨flow, ht, rfl⟩
    obtain ⟨rfl, -, rfl⟩ := ht.unique hexec
    rw [Registers.get_set_self]
    exact ⟨rfl, rfl, rfl⟩
  · rintro ⟨rfl, rfl, rfl⟩
    refine ⟨.next, hexec, ?_⟩
    rw [Registers.get_set_self]

theorem Word.ofNat_succ (n : Nat) : Int64.ofNat n + 1 = Int64.ofNat (n + 1) := by
  rw [Int64.ofNat_add]
  rfl

namespace Code

/-- Every assignment to the pointer that control comes to, from a line on, is a skip by 0 or 1. -/
def SkipsByFlags (ip : Reg) (code : Code) (line : Nat) (r : Registers) : Prop :=
  ∀ n line' r' s, Reaches ip code line r n line' r' → code[line']? = some s →
    s.writesPointer ip = true → ∃ x, s = .update .add ip (.reg x) ∧
      (r'.skipped ip line' x = 0 ∨ r'.skipped ip line' x = 1)

end Code

/-! ## Entries from the side -/

namespace Pattern

variable {ip : Reg} {code : Code} {f : Fold}

/-- **The one way into a fold from the side** is a skip by one line that stands directly before
it. -/
theorem enters_iff {p : Pattern} (hf : p.find? ip code = some f) (hshort : code.length < 2 ^ 63)
    {start : Registers} (hflags : Code.SkipsByFlags ip code 0 start) {n line : Nat} {r : Registers}
    (hr : Code.Reaches ip code 0 start n line r) {s : Stmt} (hs : code[line]? = some s)
    {m next : Nat} {r' : Registers} (ht : Takes (s.execAt ip line) r m (some next) r')
    (hout : line < f.start ∨ f.start + f.removed < line) :
    (f.start < next ∧ next ≤ f.start + f.removed) ↔
      line + 1 = f.start ∧ ∃ x, s = .update .add ip (.reg x) ∧ r.skipped ip line x = 1 := by
  have hkeeps : f.Keeps line := hout.imp_left Nat.le_of_lt
  have hne : line ≠ f.start := by omega
  have hlt : line < code.length := (List.getElem?_eq_some_iff.mp hs).1
  -- where a skip goes on, by what it adds
  have hzero {x : Reg} (hx : s = .update .add ip (.reg x)) (h0 : r.skipped ip line x = 0) :
      next = line + 1 := by
    obtain ⟨-, -, hnext⟩ := takes_skip_iff.mp (hx ▸ ht)
    rw [h0, Int64.add_zero, Word.ofNat_succ] at hnext
    exact Word.eq_of_line?_ofNat (by omega) hnext.symm
  have hone {x : Reg} (hx : s = .update .add ip (.reg x)) (h1 : r.skipped ip line x = 1) :
      next = line + 2 := by
    obtain ⟨-, -, hnext⟩ := takes_skip_iff.mp (hx ▸ ht)
    rw [h1, Word.ofNat_succ, Word.ofNat_succ] at hnext
    exact Word.eq_of_line?_ofNat (by omega) hnext.symm
  constructor
  · rintro ⟨hafter, hbefore⟩
    have hnot : ¬f.Keeps next := by
      rintro (h | h) <;> omega
    cases hw : s.writesPointer ip with
    | false => exact absurd (Fold.keeps_of_takes (sealed_of_find? hf) hs hw hkeeps hne ht) hnot
    | true =>
      obtain ⟨x, hx, h0 | h1⟩ := hflags n line r s hr hs hw
      · rw [hzero hx h0] at hnot
        exact absurd (hkeeps.succ hne) hnot
      · rw [hone hx h1] at hafter hbefore
        exact ⟨by omega, x, hx, h1⟩
  · rintro ⟨hbefore, x, hx, h1⟩
    have hpos := (fits_of_find? hf).1
    rw [hone hx h1]
    omega

/-- A skip directly before a branch around the one statement it skips to. -/
def skipIntoBranch : Code :=
  [.update .add 5 (.reg 1), .branch ⟨.gt, .reg 2, .lit 0⟩ 2 3, .assign 0 (.lit 5)]

theorem find?_skipIntoBranch :
    singleIf.find? 5 skipIntoBranch =
      some ⟨1, 1, .ifThen ⟨.gt, .reg 2, .lit 0⟩ [.assign 0 (.lit 5)]⟩ := rfl

theorem takes_skipIntoBranch :
    Takes ((Stmt.update .add 5 (.reg 1)).execAt 5 0) ⟨#v[0, 1, 0, 0, 0, 0]⟩ 1 (some 2)
      ⟨#v[0, 1, 0, 0, 0, 1]⟩ :=
  takes_skip_iff.mpr ⟨rfl, rfl, rfl⟩

theorem skipsByFlags_skipIntoBranch :
    Code.SkipsByFlags 5 skipIntoBranch 0 ⟨#v[0, 1, 0, 0, 0, 0]⟩ := by
  intro n line r s hr hs hw
  cases hr with
  | refl =>
    cases hs
    exact ⟨1, rfl, .inr rfl⟩
  | step hs₀ ht hr =>
    -- control goes over the branch to the assignment, and from there to the end
    cases hs₀
    obtain ⟨-, hline, -⟩ := ht.unique takes_skipIntoBranch
    cases hline
    cases hr with
    | refl =>
      cases hs
      cases hw
    | step hs₂ ht₂ hr₂ =>
      cases hs₂
      obtain ⟨flow, hflow, hexec⟩ := (takes_execAt_iff rfl).mp ht₂
      obtain ⟨-, rfl, -⟩ := hexec.unique (Stmt.takes_of_tick fun left ↦ by rw [Stmt.exec])
      cases hflow
      cases hr₂ with
      | refl => cases hs
      | step hs₃ _ _ => cases hs₃

/-- Control gets past the branch to the statement it guards, so with the two in one `ifThen` that
statement is no longer run. -/
theorem enters_skipIntoBranch :
    ∃ f, singleIf.find? 5 skipIntoBranch = some f ∧
      Code.SkipsByFlags 5 skipIntoBranch 0 ⟨#v[0, 1, 0, 0, 0, 0]⟩ ∧
      Code.Reaches 5 skipIntoBranch 0 ⟨#v[0, 1, 0, 0, 0, 0]⟩ 1 2 ⟨#v[0, 1, 0, 0, 0, 1]⟩ ∧
      (0 < f.start ∧ f.start < 2 ∧ 2 ≤ f.start + f.removed) ∧
      Code.run 5 skipIntoBranch none ⟨#v[0, 1, 0, 0, 0, 0]⟩ = .ok ⟨⟨#v[5, 1, 0, 0, 0, 1]⟩, 2⟩ ∧
      Code.run 5 (f.apply skipIntoBranch) none ⟨#v[0, 1, 0, 0, 0, 0]⟩ =
        .ok ⟨⟨#v[0, 1, 0, 0, 0, 1]⟩, 1⟩ :=
  ⟨_, find?_skipIntoBranch, skipsByFlags_skipIntoBranch, .single rfl takes_skipIntoBranch,
    ⟨by decide, by decide, by decide⟩, rfl, rfl⟩

theorem enters_iff_skipIntoBranch :
    ∃ f, singleIf.find? 5 skipIntoBranch = some f ∧ f.start < 2 ∧ 2 ≤ f.start + f.removed :=
  ⟨_, find?_skipIntoBranch,
    (enters_iff find?_skipIntoBranch (by decide) skipsByFlags_skipIntoBranch .refl rfl
      takes_skipIntoBranch (.inl (by decide))).mpr ⟨rfl, 1, rfl, rfl⟩⟩

end Pattern

end Unjump
