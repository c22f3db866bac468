import Unjump.Machine.Opcode

/-!
# Errors

Everything that can go wrong, by cause. The wording is fixed by `Error.message` and how grave an
error is by `Error.severity`; no other definition looks at either.
-/

namespace Unjump

/-- Why an operation gave no result. -/
inductive Error where
  /-- A listing is malformed at a line, counted from 1. -/
  | parse (line : Nat) (reason : String)
  /-- A listing names an opcode that does not exist. -/
  | unknownOpcode (line : Nat) (mnemonic : String)
  /-- An operand that has to name a register names none. -/
  | invalidRegister (line : Nat) (operand : Word)
  /-- An instruction sets the instruction pointer in a way that has no counterpart in code. -/
  | unsupportedJump (line : Nat) (opcode : Opcode)
  /-- A run took as many steps as it was allowed. -/
  | limitExceeded (limit : Nat)
  /-- A program cannot be compared with its decompilation. -/
  | unverifiable (reason : String)
  /-- A run met code that has no meaning. -/
  | runtime (reason : String)
  /-- A data form could not be read or written. -/
  | serialization (reason : String)
deriving DecidableEq, Repr

/-- How grave an error is. -/
inductive Severity where
  | fatal
  | recoverable
  | warning
deriving DecidableEq, Repr

namespace Error

def message : Error → String
  | parse line reason => "Parse error at line " ++ line.repr ++ ": " ++ reason
  | unknownOpcode line mnemonic => "Unknown opcode at line " ++ line.repr ++ ": " ++ mnemonic
  | invalidRegister line operand =>
    "Invalid register r" ++ operand.text ++ " at line " ++ line.repr
  | unsupportedJump line opcode =>
    "Unsupported translation at line " ++ line.repr ++ ": " ++ opcode.mnemonic ++
      " writes the instruction pointer"
  | limitExceeded limit => "Execution limit exceeded (max: " ++ limit.repr ++ " steps)"
  | unverifiable reason => "Cannot verify program: " ++ reason
  | runtime reason => "Runtime error: " ++ reason
  | serialization reason => "Serialization error: " ++ reason

/-- Errors of a run can be recovered from, those of a data form are warnings, all others are
fatal. -/
def severity : Error → Severity
  | limitExceeded _ | runtime _ => .recoverable
  | serialization _ => .warning
  | _ => .fatal

end Error

end Unjump
