import Unjump.Error
import Unjump.Json.Value

/-!
# Reading data forms

A data form is a JSON value that stands for a value of this library. Writing one always succeeds.
Reading one fails in two ways: the value does not have the form, or it has the form and what it
stands for is not allowed.

A record is an object with its fields; fields that are not asked for are ignored. A choice is an
object with the name of the chosen case as its only field. The readers here are strict: they take a
form the way it is written, and no array for a record.
-/

namespace Unjump

/-- Why a data form could not be read. -/
inductive FormError where
  /-- The value does not have the form. -/
  | malformed
  /-- The value has the form but stands for something that is not allowed. -/
  | rejected (cause : Error)
deriving DecidableEq, Repr

def FormError.toError : FormError → Error
  | malformed => .serialization "malformed data"
  | rejected cause => .serialization cause.message

namespace Form

abbrev Read (α : Type) := Except FormError α

def ofOption {α : Type} : Option α → Read α
  | some a => .ok a
  | none => .error .malformed

def ofExcept {α : Type} : Except Error α → Read α
  | .ok a => .ok a
  | .error e => .error (.rejected e)

/-! ## Scalars -/

def string : Json → Read String
  | .str s => .ok s
  | _ => .error .malformed

def bool : Json → Read Bool
  | .bool b => .ok b
  | _ => .error .malformed

/-- An integer between two bounds. -/
def integer (low high : Int) : Json → Read Int
  | .int n => if low ≤ n ∧ n ≤ high then .ok n else .error .malformed
  | _ => .error .malformed

def word (v : Json) : Read Word :=
  Int64.ofInt <$> integer Int64.minValue.toInt Int64.maxValue.toInt v

/-- An unsigned integer of 64 bits. -/
def line (v : Json) : Read Nat := Int.toNat <$> integer 0 (UInt64.size - 1) v

/-- An unsigned integer of eight bits. -/
def byte (v : Json) : Read Nat := Int.toNat <$> integer 0 255 v

def named {α : Type} (ofName? : String → Option α) (v : Json) : Read α := do
  ofOption (ofName? (← string v))

/-! ## Lists and records -/

def list {α : Type} (item : Json → Read α) : Json → Read (List α)
  | .arr items => items.mapM item
  | _ => .error .malformed

def field {α : Type} (key : String) (read : Json → Read α) (v : Json) : Read α :=
  match v.get? key with
  | some w => read w
  | none => .error .malformed

/-- A field that may be missing, and then has the value `default`. -/
def fieldD {α : Type} (key : String) (default : α) (read : Json → Read α) (v : Json) : Read α :=
  match v.get? key with
  | some w => read w
  | none => .ok default

def ofWord (w : Word) : Json := .int w.toInt

end Form

end Unjump
