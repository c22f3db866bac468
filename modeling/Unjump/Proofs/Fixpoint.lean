import Unjump.Proofs.Structure

/-!
# Recovering ends, and its report is right

Recovering is a loop without a bound: it folds the first pattern it finds and starts over, until a
round finds nothing. `Recover.Leads` is that loop as a relation, with the patterns of the rounds in
their order. The loop comes to an end by the lengths, since every round takes at least one line
away.

A report counts rounds by their pattern, so it is right if the loop, folding just the patterns that
the report counts, leads to code in which nothing more is found.
-/

namespace Unjump

namespace Recover

variable {ip : Reg} {code out : Code} {ps : List Pattern}

/-- Rounds that fold these patterns, one after the other, lead from the first code to the second. -/
inductive Leads (ip : Reg) : Code → List Pattern → Code → Prop
  | refl (code : Code) : Leads ip code [] code
  | fold {code code' out : Code} {p : Pattern} {ps : List Pattern}
    (hstep : step? ip code = some (p, code')) (hrest : Leads ip code' ps out) :
    Leads ip code (p :: ps) out

/-- The rounds of recovering lead to the recovered code. -/
theorem leads_recover (ip : Reg) (code : Code) :
    Leads ip code ((steps ip code).map Prod.fst) (Code.recover ip code) := by
  rcases hstep : step? ip code with _ | ⟨p, code'⟩
  · rw [steps_of_none hstep, Code.recover_of_none hstep]
    exact .refl code
  · have hlt := length_lt_of_step? hstep
    rw [steps_of_some hstep, Code.recover_of_some hstep]
    exact .fold hstep (leads_recover ip code')
termination_by code.length

/-- Every round takes a line. -/
theorem Leads.length_le (h : Leads ip code ps out) : ps.length + out.length ≤ code.length := by
  induction h with
  | refl code => simp
  | fold hstep _ ih =>
    have hlt := length_lt_of_step? hstep
    rw [List.length_cons]
    omega

/-- A round leaves the line of its fold. -/
theorem length_pos_of_step? {code' : Code} {p : Pattern} (h : step? ip code = some (p, code')) :
    0 < code'.length := by
  obtain ⟨f, hf, rfl⟩ := Option.map_eq_some_iff.mp (foldFirst?_of_step? h)
  have hfits := Pattern.fits_of_find? hf
  have hlen := Fold.length_apply hfits
  have hlt := hfits.2
  omega

theorem Leads.length_pos (h : Leads ip code ps out) (hcode : 0 < code.length) :
    0 < out.length := by
  induction h with
  | refl code => exact hcode
  | fold hstep _ ih => exact ih (length_pos_of_step? hstep)

end Recover

/-! ## Reports -/

namespace Report

/-- The report on rounds that fold these patterns and one more that finds nothing. -/
structure Counts (report : Report) (ps : List Pattern) : Prop where
  count : ∀ p, report.count p = ps.count p
  passes : report.passes = ps.length + 1

theorem counts_ofPatterns (ps : List Pattern) : (ofPatterns ps).Counts ps :=
  ⟨count_ofPatterns ps, passes_ofPatterns ps⟩

end Report

namespace Code

/-- **Recovering ends where no pattern is left, and reports what it did.** Every round shortens the
code, whatever code it is. The rounds that the report counts lead to the recovered code; they are no
more than the lines that went, and so fewer than the lines there were. In recovered code no pattern
applies, and recovering once more changes nothing and finds nothing in its only round. -/
theorem recover_settles (ip : Reg) (code : Code) :
    (∀ c p c', Recover.step? ip c = some (p, c') → c'.length < c.length) ∧
    (∃ ps, Recover.Leads ip code ps (Code.recover ip code) ∧
      (Code.recoverReport ip code).Counts ps) ∧
    (Code.recoverReport ip code).total + (Code.recover ip code).length ≤ code.length ∧
    (code ≠ [] → (Code.recoverReport ip code).total < code.length) ∧
    (Code.recoverReport ip code).passes = (Code.recoverReport ip code).total + 1 ∧
    (∀ p : Pattern, p.foldFirst? ip (Code.recover ip code) = none) ∧
    Code.recover ip (Code.recover ip code) = Code.recover ip code ∧
    Code.recoverReport ip (Code.recover ip code) =
      { ifElses := 0, singleIfs := 0, forLoops := 0, doWhiles := 0, passes := 1 } := by
  have hleads := Recover.leads_recover ip code
  have hend := Code.step?_recover ip code
  have htotal : (Code.recoverReport ip code).total =
      ((Recover.steps ip code).map Prod.fst).length := Report.total_ofPatterns _
  have hle := hleads.length_le
  refine ⟨fun c p c' ↦ Recover.length_lt_of_step?, ⟨_, hleads, Report.counts_ofPatterns _⟩,
    ?_, fun hne ↦ ?_, ?_, Recover.step?_eq_none_iff.mp hend, Code.recover_of_none hend, ?_⟩
  · rwa [htotal]
  · have hpos := hleads.length_pos (List.length_pos_iff.mpr hne)
    omega
  · rw [htotal]
    exact Report.passes_ofPatterns _
  · rw [Code.recoverReport, Recover.steps_of_none hend]
    rfl

/-- The branch around `halt` is folded first, then the loop, then its first value. -/
theorem recover_settles_countToThree :
    (∃ p c', Recover.step? 5 countToThree = some (p, c') ∧ c'.length < countToThree.length) ∧
      countToThree ≠ [] ∧ (Code.recoverReport 5 countToThree).total < countToThree.length :=
  have h := recover_settles 5 countToThree
  ⟨⟨.singleIf, _, rfl, h.1 countToThree _ _ rfl⟩, nofun, h.2.2.2.1 nofun⟩

end Code

end Unjump
