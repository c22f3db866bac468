import Unjump.Code.Lines
import Unjump.Code.Stmt

/-!
# Condensing stores

One pass over code that makes its assignments shorter and drops those that change nothing.

## Compound assignments

An assignment `d = d op e` becomes `d op= e`, and so does `d = e op d` when the operator may
exchange its operands.

## Redundant stores

Along a run of assignments of plain values the pass tracks which value each register was given.
An assignment of the value that the register is known to hold, or of the register to itself, is
dropped. A new assignment to `d` ends what was known through `d`; any statement other than an
assignment of a plain value ends everything that was known.

What is known is gathered line after line, as if control never entered a run in its middle.

## Targets

Dropping a line moves the lines after it up. `TargetPolicy.renumber` lets every target move along,
so that a target of a dropped line falls on the next line that was kept; `TargetPolicy.preserve`
leaves targets as they are.
-/

namespace Unjump

/-- What happens to targets when lines are dropped. -/
inductive TargetPolicy where
  /-- They keep their numbers. -/
  | preserve
  /-- They keep naming the same statements. -/
  | renumber
deriving DecidableEq, Repr

namespace Stores

/-! ## Tracked values -/

/-- The value each register is known to have been given. -/
abbrev Known := Reg → Option Expr

def Known.nothing : Known := fun _ ↦ none

/-- After `dest = value`, the value of `dest` is known and values that read `dest` no longer are. -/
def Known.record (known : Known) (dest : Reg) (value : Expr) : Known := fun r ↦
  if r = dest then some value else (known r).filter fun e ↦ !e.reads dest

/-! ## The pass -/

/-- The shortest statement for `dest = lhs op rhs`. -/
def compound (dest : Reg) (op : BinOp) (lhs rhs : Expr) : Stmt :=
  if lhs = .reg dest then .update op dest rhs
  else if rhs = .reg dest ∧ op.isCommutative then .update op dest lhs
  else .assign dest (.bin op lhs rhs)

/-- What becomes of a statement, none if it is dropped, and what is known after it. -/
def visit (known : Known) : Stmt → Option Stmt × Known
  | .assign dest (.bin op lhs rhs) => (some (compound dest op lhs rhs), .nothing)
  | .assign dest value =>
    if value = .reg dest ∨ known dest = some value then (none, known)
    else (some (.assign dest value), known.record dest value)
  | s => (some s, .nothing)

/-- What becomes of every statement, line by line. -/
def scan (known : Known) : Code → List (Option Stmt)
  | [] => []
  | s :: rest =>
    let (kept?, known) := visit known s
    kept? :: scan known rest

/-- The lines that are dropped. -/
def deleted (code : Code) : List Nat :=
  Lines.marked Option.isNone (scan .nothing code)

/-- Where a line goes when others are dropped. -/
def renumber (deleted : List Nat) (t : Nat) : Nat := t - Lines.below deleted t

def condense (policy : TargetPolicy) (code : Code) : Code :=
  let kept := (scan .nothing code).filterMap id
  match policy with
  | .preserve => kept
  | .renumber => Code.mapTargets (renumber (deleted code)) kept

theorem length_scan (known : Known) (code : Code) : (scan known code).length = code.length := by
  induction code generalizing known with
  | nil => rfl
  | cons s rest ih => simp [scan, ih]

end Stores

end Unjump
