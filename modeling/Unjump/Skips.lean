import Unjump.Code.Lines
import Unjump.Code.Stmt

/-!
# Guarding skips

A *skip* is the statement `ip += r`: it moves control on by as many lines as `r` says. The
folding of branches expects a comparison into `r` directly before it. Where another statement
stands there, this pass puts `r = r == 1` in between, which changes nothing as long as `r` holds 0
or 1.

The first line is never guarded. A target that named a skip now names its guard; targets are
64-bit line numbers and move on by the number of guards that were put before the line they named.
-/

namespace Unjump.Skips

/-- The register that a skip adds to the pointer. -/
def skip? (ip : Reg) : Stmt → Option Reg
  | .update .add dest (.reg r) => if dest = ip then some r else none
  | _ => none

/-- The registers of the skips that need a guard, line by line. The flag says whether the line
before was a comparison. -/
def scan (ip : Reg) (afterCompare : Bool) : Code → List (Option Reg)
  | [] => []
  | s :: rest => (if afterCompare then none else skip? ip s) :: scan ip s.isCompare rest

/-- The registers of the unguarded skips of some code, line by line. -/
def unguarded (ip : Reg) (code : Code) : List (Option Reg) := scan ip true code

/-- The lines that get a guard in front. -/
def inserted (ip : Reg) (code : Code) : List Nat :=
  Lines.marked Option.isSome (unguarded ip code)

/-- The comparison that guards a skip by `r`. -/
def guardOf (r : Reg) : Stmt := .compare ⟨.eq, .reg r, .lit 1⟩ r

/-- A statement behind its guard, if it needs one. -/
def withGuard : Option Reg × Stmt → Code
  | (some r, s) => [guardOf r, s]
  | (none, s) => [s]

/-- Where a line goes when guards are put in front of others. -/
def renumber (inserted : List Nat) (t : Nat) : Nat := (t + Lines.below inserted t) % UInt64.size

/-- The code with every skip guarded. -/
def guardAll (ip : Reg) (code : Code) : Code :=
  Code.mapTargets (renumber (inserted ip code)) (((unguarded ip code).zip code).flatMap withGuard)

theorem length_scan (ip : Reg) (afterCompare : Bool) (code : Code) :
    (scan ip afterCompare code).length = code.length := by
  induction code generalizing afterCompare with
  | nil => rfl
  | cons s rest ih => simp [scan, ih]

end Unjump.Skips
