import Unjump.Machine.Opcode

/-!
# Expressions

Expressions over registers and literals, with the six binary operators of the machine. A
*condition* is an expression known to be a binary operation; it holds when its value is not zero,
whatever the operator.
-/

namespace Unjump

/-! ## Operators -/

inductive BinOp where
  | add | mul | bitAnd | bitOr | gt | eq
deriving DecidableEq, Repr

namespace BinOp

def symbol : BinOp → String
  | add => "+"
  | mul => "*"
  | bitAnd => "&"
  | bitOr => "|"
  | gt => ">"
  | eq => "=="

/-- The value of an operation; comparisons give 1 or 0. -/
def apply : BinOp → Word → Word → Word
  | add, v, w => v + w
  | mul, v, w => v * w
  | bitAnd, v, w => v &&& w
  | bitOr, v, w => v ||| w
  | gt, v, w => Opcode.flag (v > w)
  | eq, v, w => Opcode.flag (v == w)

/-- All operators but "greater than" may exchange their operands. -/
def isCommutative : BinOp → Bool
  | gt => false
  | _ => true

theorem apply_comm {op : BinOp} (h : op.isCommutative) (v w : Word) :
    op.apply v w = op.apply w v := by
  cases op with
  | add => exact Int64.add_comm v w
  | mul => exact Int64.mul_comm v w
  | bitAnd => exact Int64.and_comm v w
  | bitOr => exact Int64.or_comm v w
  | gt => simp [isCommutative] at h
  | eq => simp [apply, Bool.beq_comm (a := v)]

end BinOp

/-! ## Expressions -/

/-- Registers, literals and operations on them. -/
inductive Expr where
  | reg (r : Reg)
  | lit (w : Word)
  | bin (op : BinOp) (lhs rhs : Expr)
deriving DecidableEq, Repr

namespace Expr

def eval (r : Registers) : Expr → Word
  | reg i => r.get i
  | lit w => w
  | bin op lhs rhs => op.apply (lhs.eval r) (rhs.eval r)

def reads (i : Reg) : Expr → Bool
  | reg j => i == j
  | lit _ => false
  | bin _ lhs rhs => lhs.reads i || rhs.reads i

def isBin : Expr → Bool
  | bin .. => true
  | _ => false

/-- Puts parentheses around the text of an operation. -/
def enclose (e : Expr) (text : String) : String :=
  if e.isBin then "(" ++ text ++ ")" else text

/-- Operands that are themselves operations stand in parentheses, so no precedence is needed. -/
def text : Expr → String
  | reg i => i.name
  | lit w => w.text
  | bin op lhs rhs =>
    lhs.enclose lhs.text ++ " " ++ op.symbol ++ " " ++ rhs.enclose rhs.text

end Expr

/-! ## Conditions -/

/-- An expression that is an operation. -/
structure Cond where
  op : BinOp
  lhs : Expr
  rhs : Expr
deriving DecidableEq, Repr

namespace Cond

def toExpr (c : Cond) : Expr := .bin c.op c.lhs c.rhs

def eval (c : Cond) (r : Registers) : Word := c.toExpr.eval r

/-- A condition holds when its value is not zero. -/
def holds (c : Cond) (r : Registers) : Bool := c.eval r != 0

/-- The text of a condition, without parentheses around it. -/
def text (c : Cond) : String := c.toExpr.text

end Cond

/-- An expression as a condition, when it is an operation. -/
def Expr.cond? : Expr → Option Cond
  | .bin op lhs rhs => some ⟨op, lhs, rhs⟩
  | _ => none

end Unjump
