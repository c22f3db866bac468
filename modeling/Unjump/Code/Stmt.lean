import Unjump.Code.Expr

/-!
# Code

Code is a list of statements. The *flat* statements are what single instructions become: they
store a word, or transfer control to a **line**, the position of a statement in the list. The
*structured* statements carry a body of their own and replace transfers. Flat and structured
statements mix freely, and a transfer inside a body still names a line of the outermost list.

Loops run their body before they ask whether to stop: the condition of `doUntil` and `forUntil`
is the one on which the loop is left.

## Traversals

Statements contain lists of statements, so every traversal is a pair of functions, one on
statements and one on code. The second is a list operation applied to the first, and the lemmas
`Code.targets_eq_flatMap`, `Code.mapTargets_eq_map` and `Code.transfers_eq_any` say which.
-/

namespace Unjump

inductive Stmt where
  /-- `dest = value` -/
  | assign (dest : Reg) (value : Expr)
  /-- `dest = dest op value` -/
  | update (op : BinOp) (dest : Reg) (value : Expr)
  /-- `dest = cond` -/
  | compare (cond : Cond) (dest : Reg)
  /-- Continue at a line. -/
  | goto (target : Nat)
  /-- Continue at one of two lines. -/
  | branch (cond : Cond) (ifTrue ifFalse : Nat)
  /-- Stop. -/
  | halt
  /-- Run the body if the condition holds. -/
  | ifThen (cond : Cond) (body : List Stmt)
  /-- Run the body until the condition holds after it. -/
  | doUntil (cond : Cond) (body : List Stmt)
  /-- Give `var` its first value; then run the body and count `var` up until the condition holds. -/
  | forUntil (var : Reg) (init : Expr) (cond : Cond) (body : List Stmt)

/-- A list of statements, in which a line is a position. -/
abbrev Code := List Stmt

instance : Inhabited Stmt := ⟨.halt⟩

namespace Stmt

/-- The body of a structured statement. -/
def body? : Stmt → Option Code
  | ifThen _ body | doUntil _ body | forUntil _ _ _ body => some body
  | _ => none

/-- Whether the statement has a body. -/
def isStructured (s : Stmt) : Bool := s.body?.isSome

/-- Whether the statement itself stores into the pointer register by an assignment. Such a
statement is a jump, and has a meaning only outside of bodies. -/
def writesPointer (ip : Reg) : Stmt → Bool
  | assign dest _ | update _ dest _ => dest == ip
  | _ => false

def isCompare : Stmt → Bool
  | compare .. => true
  | _ => false

end Stmt

/-! ## Targets -/

mutual

/-- The lines a statement may transfer control to, those of its body included. -/
def Stmt.targets : Stmt → List Nat
  | .goto target => [target]
  | .branch _ ifTrue ifFalse => [ifTrue, ifFalse]
  | .ifThen _ body => Code.targets body
  | .doUntil _ body => Code.targets body
  | .forUntil _ _ _ body => Code.targets body
  | .assign .. | .update .. | .compare .. | .halt => []

/-- The lines that the statements of some code may transfer control to. -/
def Code.targets : List Stmt → List Nat
  | [] => []
  | s :: rest => s.targets ++ Code.targets rest

end

mutual

/-- Sends every target of a statement through `f`. -/
def Stmt.mapTargets (f : Nat → Nat) : Stmt → Stmt
  | .goto target => .goto (f target)
  | .branch cond ifTrue ifFalse => .branch cond (f ifTrue) (f ifFalse)
  | .ifThen cond body => .ifThen cond (Code.mapTargets f body)
  | .doUntil cond body => .doUntil cond (Code.mapTargets f body)
  | .forUntil var init cond body => .forUntil var init cond (Code.mapTargets f body)
  | .assign dest value => .assign dest value
  | .update op dest value => .update op dest value
  | .compare cond dest => .compare cond dest
  | .halt => .halt

def Code.mapTargets (f : Nat → Nat) : List Stmt → List Stmt
  | [] => []
  | s :: rest => s.mapTargets f :: Code.mapTargets f rest

end

/-! ## Transfers of control -/

mutual

/-- Whether a statement, or one in its body, transfers control to a line: by a jump, by a branch,
or by an assignment to the pointer register. -/
def Stmt.transfers (ip : Reg) : Stmt → Bool
  | .goto _ | .branch .. => true
  | .assign dest _ | .update _ dest _ => dest == ip
  | .ifThen _ body => Code.transfers ip body
  | .doUntil _ body => Code.transfers ip body
  | .forUntil _ _ _ body => Code.transfers ip body
  | .compare .. | .halt => false

def Code.transfers (ip : Reg) : List Stmt → Bool
  | [] => false
  | s :: rest => s.transfers ip || Code.transfers ip rest

end

namespace Code

theorem targets_eq_flatMap (code : Code) : Code.targets code = code.flatMap Stmt.targets := by
  induction code with
  | nil => rfl
  | cons s rest ih => rw [Code.targets, ih, List.flatMap_cons]

theorem mapTargets_eq_map (f : Nat → Nat) (code : Code) :
    Code.mapTargets f code = code.map (Stmt.mapTargets f) := by
  induction code with
  | nil => rfl
  | cons s rest ih => rw [Code.mapTargets, ih, List.map_cons]

theorem transfers_eq_any (ip : Reg) (code : Code) :
    Code.transfers ip code = code.any (Stmt.transfers ip) := by
  induction code with
  | nil => rfl
  | cons s rest ih => rw [Code.transfers, ih, List.any_cons]

@[simp]
theorem length_mapTargets (f : Nat → Nat) (code : Code) :
    (Code.mapTargets f code).length = code.length := by
  rw [mapTargets_eq_map, List.length_map]

/-- The targets that name no statement of the code, where control leaves it. -/
def exits (code : Code) : List Nat :=
  (Code.targets code).filter fun t ↦ code.length ≤ t

/-- A target moved up or down. It stops at zero and at the largest number of 64 bits. -/
def shift (delta : Int) (t : Nat) : Nat :=
  if delta ≤ 0 then t - delta.natAbs else min (t + delta.natAbs) (UInt64.size - 1)

/-- Moves every target after `line`. -/
def shiftTargets (line : Nat) (delta : Int) (code : Code) : Code :=
  Code.mapTargets (fun t ↦ if line < t then shift delta t else t) code

end Code

mutual

/-- **Renumbering moves the targets and nothing else.** -/
theorem Stmt.targets_mapTargets (f : Nat → Nat) (s : Stmt) :
    (s.mapTargets f).targets = s.targets.map f := by
  cases s with
  | ifThen cond body => exact Code.targets_mapTargets f body
  | doUntil cond body => exact Code.targets_mapTargets f body
  | forUntil var init cond body => exact Code.targets_mapTargets f body
  | _ => simp [Stmt.mapTargets, Stmt.targets]

theorem Code.targets_mapTargets (f : Nat → Nat) (code : List Stmt) :
    Code.targets (Code.mapTargets f code) = (Code.targets code).map f := by
  cases code with
  | nil => rfl
  | cons s rest =>
    simp only [Code.mapTargets, Code.targets, List.map_append]
    rw [Stmt.targets_mapTargets f s, Code.targets_mapTargets f rest]

end

end Unjump
