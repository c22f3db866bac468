import Unjump.Code.Stmt
import Unjump.Execution

/-!
# Running code

Code runs from line 0 on a register file. A statement that transfers control continues at a line
of the outermost list, also when it stands in a body; a line past the end, and `halt`, stop the
run.

## Steps

Every statement takes one step before it does anything, and so does every repetition of a loop.
Each function below is given what is left of a *budget* and hands back what remains after it.
Statements run by recursion on the statement. A loop, and the run as a whole, take a number of
*rounds* besides, and the budget at the start is always enough of them because every round takes
a step.

## The pointer

An assignment to the pointer register is a relative jump. While it runs, the register holds the
line of the statement, and control continues one past the value it leaves there, as on the
machine. A body has no lines, so such an assignment inside a body has no meaning and the run is at
fault.
-/

namespace Unjump

/-! ## Outcomes -/

/-- Where control goes after a statement. -/
inductive Flow where
  /-- To the next statement. -/
  | next
  /-- To a line of the outermost list. -/
  | goto (target : Nat)
  /-- Nowhere: the run stops. -/
  | halt
deriving DecidableEq, Repr

/-- What running something on a register file within a budget comes to. -/
inductive Outcome (α : Type) where
  /-- It finished with a result, a register file and what is left of the budget. -/
  | done (result : α) (registers : Registers) (left : Nat)
  /-- It needed more steps than the budget had. -/
  | exhausted
  /-- It met an assignment to the pointer inside a body. -/
  | fault
deriving DecidableEq

/-- Continues after what finished. -/
@[inline]
def Outcome.bind {α β : Type} (o : Outcome α) (k : α → Registers → Nat → Outcome β) :
    Outcome β :=
  match o with
  | .done a r left => k a r left
  | .exhausted => .exhausted
  | .fault => .fault

/-- Continues with the next statement, if that is where control goes. -/
@[inline]
def Outcome.andThen (o : Outcome Flow) (k : Registers → Nat → Outcome Flow) : Outcome Flow :=
  o.bind fun flow r left ↦
    match flow with
    | .next => k r left
    | flow => .done flow r left

/-! ## Loops -/

/-- What follows one round of a loop: nothing more if `stop` holds, else a step and the rounds
that remain. -/
@[inline]
def afterRound (stop : Registers → Bool) (again : Registers → Nat → Outcome Flow) (r : Registers)
    (left : Nat) : Outcome Flow :=
  if stop r then .done .next r left
  else
    match left with
    | 0 => .exhausted
    | left + 1 => again r left

/-- Runs `body` until `stop` holds after it, repeating it at most `rounds` times. -/
@[specialize]
def repeatUntil (body : Registers → Nat → Outcome Flow) (stop : Registers → Bool) :
    Nat → Registers → Nat → Outcome Flow
  | 0, r, left => (body r left).andThen (afterRound stop fun _ _ ↦ .exhausted)
  | rounds + 1, r, left =>
    (body r left).andThen (afterRound stop fun r left ↦ repeatUntil body stop rounds r left)

/-! ## Statements -/

mutual

def Stmt.exec (ip : Reg) (s : Stmt) (r : Registers) (budget : Nat) : Outcome Flow :=
  match budget with
  | 0 => .exhausted
  | left + 1 =>
    match s with
    | .assign dest value => .done .next (r.set dest (value.eval r)) left
    | .update op dest value => .done .next (r.set dest (op.apply (r.get dest) (value.eval r))) left
    | .compare cond dest => .done .next (r.set dest (cond.eval r)) left
    | .goto target => .done (.goto target) r left
    | .branch cond ifTrue ifFalse =>
      .done (.goto (if cond.holds r then ifTrue else ifFalse)) r left
    | .halt => .done .halt r left
    | .ifThen cond body =>
      if cond.holds r then Code.exec ip body r left else .done .next r left
    | .doUntil cond body => repeatUntil (Code.exec ip body) cond.holds left r left
    | .forUntil var init cond body =>
      repeatUntil
        (fun r left ↦ (Code.exec ip body r left).andThen fun r left ↦
          .done .next (r.set var (r.get var + 1)) left)
        cond.holds left (r.set var (init.eval r)) left

/-- Runs the statements of a body in order, as long as each one hands control to the next. -/
def Code.exec (ip : Reg) (body : List Stmt) (r : Registers) (left : Nat) : Outcome Flow :=
  match body with
  | [] => .done .next r left
  | s :: rest =>
    if s.writesPointer ip then .fault
    else (s.exec ip r left).andThen fun r left ↦ Code.exec ip rest r left

end

/-- Runs the statement at a line of the outermost list. The result is the line to continue at, if
the run goes on. -/
def Stmt.execAt (ip : Reg) (line : Nat) (s : Stmt) (r : Registers) (left : Nat) :
    Outcome (Option Nat) :=
  if s.writesPointer ip then
    (s.exec ip (r.set ip (Int64.ofNat line)) left).bind fun _ r left ↦
      .done (r.get ip + 1).line? r left
  else
    (s.exec ip r left).bind fun flow r left ↦
      match flow with
      | .next => .done (some (line + 1)) r left
      | .goto target => .done (some target) r left
      | .halt => .done none r left

/-! ## Runs -/

/-- Runs statements from a line until none is left to run. -/
@[specialize]
def runFrom (ip : Reg) (fetch : Nat → Option Stmt) (rounds line : Nat) (r : Registers)
    (left : Nat) : Outcome Unit :=
  match fetch line with
  | none => .done () r left
  | some s =>
    match rounds with
    | 0 => .exhausted
    | rounds + 1 =>
      (s.execAt ip line r left).bind fun next? r left ↦
        match next? with
        | none => .done () r left
        | some next => runFrom ip fetch rounds next r left

namespace Code

def runWithin (ip : Reg) (code : Code) (budget : Nat) (r : Registers) : Outcome Unit :=
  let statements := code.toArray
  runFrom ip (fun line ↦ statements[line]?) budget 0 r budget

/-- Why code cannot be run. -/
def pointerInBody : Error := .runtime "pointer arithmetic inside a structured block"

def run (ip : Reg) (code : Code) (limit : StepLimit) (r : Registers) : Except Error Execution :=
  match runWithin ip code limit.budget r with
  | .done _ r left => Execution.ofRun limit (some (r, left))
  | .exhausted => Execution.ofRun limit none
  | .fault => .error pointerInBody

theorem runWithin_eq (ip : Reg) (code : Code) (budget : Nat) (r : Registers) :
    runWithin ip code budget r = runFrom ip (fun line ↦ code[line]?) budget 0 r budget := by
  simp [runWithin]

end Code

end Unjump
