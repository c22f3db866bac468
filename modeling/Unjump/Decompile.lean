import Unjump.Execution
import Unjump.Fold.Recover
import Unjump.Lift
import Unjump.Pseudocode
import Unjump.Skips
import Unjump.Stores

/-!
# Decompiling

A program is lifted, its stores are condensed, its skips are guarded, its structure is recovered,
and the result is laid out as pseudocode. Each of the three middle stages can be left out. Only
lifting can fail.

## Warnings

Several stages rest on assumptions about the program. A decompilation lists, in the order of the
stages, each assumption it made and everything that keeps its code from being fully structured.
-/

namespace Unjump

def version : String := "0.1.0"

/-! ## Options -/

/-- How far each run of a verification goes unless told otherwise. -/
def Options.defaultStepLimit : UInt64 := 10000000

/-- What a decompilation does, and how far its verification runs. -/
structure Options where
  /-- Make compound assignments and drop redundant stores. -/
  condenseStores : Bool := true
  /-- Put a comparison before every skip. -/
  guardSkips : Bool := true
  /-- Fold flat code into structured code. -/
  recoverStructure : Bool := true
  /-- What becomes of targets when stores are dropped. -/
  targetPolicy : TargetPolicy := .preserve
  /-- How the pseudocode is laid out. -/
  layout : Layout := {}
  /-- The limit of each of the two runs of a verification. -/
  stepLimit : StepLimit := some Options.defaultStepLimit
deriving DecidableEq

/-! ## Warnings -/

/-- An assumption that a decompilation made, or a shortcoming of its result. -/
inductive Warning where
  /-- A write to the pointer was taken for the end of the program. -/
  | assumedEnd (line : Nat) (i : Instruction)
  /-- Stores were dropped and targets did not move along. -/
  | staleTargets (deleted : List Nat)
  /-- A register that is added to the pointer was taken to hold 0 or 1. -/
  | assumedFlag (line : Nat)
  /-- Some statements still transfer control to lines. -/
  | jumpsRemain (count : Nat)
  /-- Some targets lie past the end of the code. -/
  | exitTargets (targets : List Nat)
deriving DecidableEq, Repr

/-- A list of lines, as warnings show it. -/
def Warning.lineList (lines : List Nat) : String :=
  "[" ++ String.intercalate ", " (lines.map Nat.repr) ++ "]"

def Warning.message : Warning → String
  | assumedEnd line i => "line " ++ line.repr ++ ": `" ++ i.text ++ "` assumed to end the program"
  | staleTargets deleted =>
    "removed redundant assignments at lines " ++ lineList deleted ++
      " without renumbering jump targets"
  | assumedFlag line =>
    "line " ++ line.repr ++ ": register added to the pointer assumed to hold 0 or 1"
  | jumpsRemain count => count.repr ++ " node(s) still transfer control by line number"
  | exitTargets targets =>
    "jump targets past the last node (program exit): " ++ lineList targets

/-! ## The stages -/

namespace Options

/-- Lifted code after the stores were condensed. -/
def condensed (o : Options) (lifted : Code) : Code :=
  if o.condenseStores then Stores.condense o.targetPolicy lifted else lifted

/-- Lifted code after the skips were guarded. -/
def guarded (o : Options) (ip : Reg) (lifted : Code) : Code :=
  if o.guardSkips then Skips.guardAll ip (o.condensed lifted) else o.condensed lifted

/-- Lifted code after its structure was recovered. -/
def recovered (o : Options) (ip : Reg) (lifted : Code) : Code :=
  if o.recoverStructure then Code.recover ip (o.guarded ip lifted) else o.guarded ip lifted

/-- The report on the last stage. -/
def report (o : Options) (ip : Reg) (lifted : Code) : Report :=
  if o.recoverStructure then Code.recoverReport ip (o.guarded ip lifted) else .empty

/-- The instructions that were taken for the end of the program. -/
def endWarnings (p : Program) : List Warning :=
  p.instructions.toList.zipIdx.filterMap fun (i, line) ↦
    if i.opcode = .mulr ∧ Reg.ofOperand? i.c = some p.ip then some (.assumedEnd line i) else none

/-- The stores that were dropped while targets stayed. -/
def storeWarnings (o : Options) (lifted : Code) : List Warning :=
  let deleted := Stores.deleted lifted
  if o.condenseStores ∧ o.targetPolicy = .preserve ∧ deleted ≠ [] then [.staleTargets deleted]
  else []

/-- The guards that were put in. -/
def skipWarnings (o : Options) (ip : Reg) (lifted : Code) : List Warning :=
  if o.guardSkips then (Skips.inserted ip (o.condensed lifted)).map .assumedFlag else []

/-- The lines past the end that control may go to, in increasing order and each once. -/
def exitLines (code : Code) : List Nat := (Code.exits code).mergeSort.eraseReps

/-- What keeps code from being fully structured. -/
def codeWarnings (ip : Reg) (code : Code) : List Warning :=
  let jumps := code.countP (Stmt.transfers ip)
  (if jumps = 0 then [] else [.jumpsRemain jumps]) ++
    (if exitLines code = [] then [] else [.exitTargets (exitLines code)])

def warnings (o : Options) (p : Program) (lifted : Code) : List Warning :=
  endWarnings p ++ o.storeWarnings lifted ++ o.skipWarnings p.ip lifted ++
    codeWarnings p.ip (o.recovered p.ip lifted)

end Options

/-! ## The result -/

structure Decompilation where
  /-- The pointer register of the program. -/
  ip : Reg
  code : Code
  /-- The pseudocode. -/
  source : String
  report : Report
  warnings : List Warning

namespace Decompilation

/-- Whether no statement transfers control to a line. -/
def isFullyStructured (d : Decompilation) : Bool := !Code.transfers d.ip d.code

/-- The decompilation of a program from its lifted code. -/
def ofLifted (o : Options) (p : Program) (lifted : Code) : Decompilation :=
  let code := o.recovered p.ip lifted
  { ip := p.ip
    code := code
    source := Pseudocode.emit o.layout p.ip code
    report := o.report p.ip lifted
    warnings := o.warnings p lifted }

end Decompilation

def Program.decompile (o : Options) (p : Program) : Except Error Decompilation :=
  p.lift.map (Decompilation.ofLifted o p)

end Unjump
