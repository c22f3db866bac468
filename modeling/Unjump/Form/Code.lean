import Unjump.Code.Stmt
import Unjump.Form.Machine

/-!
# Data forms of code

An operator is written by its name, a condition as a record of operator and operands. Expressions
and statements are choices, except for the statement that stops a run, which is written as its
bare name.

```text
condition    {"op": operator, "lhs": expression, "rhs": expression}
expression   {"Register": register}  {"Literal": word}  {"Binary": condition}
statement    {"Assignment": {"dest": register, "value": expression}}
             {"CompoundAssignment": {"op": operator, "dest": register, "value": expression}}
             {"Comparison": {"cond": condition, "dest": register}}
             {"UnconditionalJump": {"target": line}}
             {"ConditionalJump": {"cond": condition, "if_true": line, "if_false": line}}
             "End"
             {"IfStatement": {"cond": condition, "body": [statement, ..]}}
             {"DoWhile": {"cond": condition, "body": [statement, ..]}}
             {"ForLoop": {"var": register, "init": expression, "cond": condition,
                          "body": [statement, ..]}}
```

Readers of nested forms go down the value itself, so the functions that look up a field with
something nested in it search the list of fields on their own.
-/

namespace Unjump

/-! ## Operators -/

def BinOp.formName : BinOp → String
  | add => "Add"
  | mul => "Mul"
  | bitAnd => "BitAnd"
  | bitOr => "BitOr"
  | gt => "Gt"
  | eq => "Eq"

def BinOp.ofFormName? (name : String) : Option BinOp :=
  [add, mul, bitAnd, bitOr, gt, eq].find? fun op ↦ op.formName == name

def BinOp.toJson (op : BinOp) : Json := .str op.formName

def BinOp.ofJson (v : Json) : Form.Read BinOp := Form.named BinOp.ofFormName? v

/-! ## Expressions -/

def Expr.toJson : Expr → Json
  | reg r => .obj [("Register", r.toJson)]
  | lit w => .obj [("Literal", Form.ofWord w)]
  | bin op lhs rhs =>
    .obj [("Binary", .obj [("op", op.toJson), ("lhs", lhs.toJson), ("rhs", rhs.toJson)])]

def Cond.toJson (c : Cond) : Json :=
  .obj [("op", c.op.toJson), ("lhs", c.lhs.toJson), ("rhs", c.rhs.toJson)]

mutual

def Expr.ofJson : Json → Form.Read Expr
  | .obj [(tag, v)] =>
    if tag = "Register" then return .reg (← Reg.ofJson v)
    else if tag = "Literal" then return .lit (← Form.word v)
    else if tag = "Binary" then
      match v with
      | .obj fields => do
        let op ← Form.field "op" BinOp.ofJson (.obj fields)
        let lhs ← Expr.ofField "lhs" fields
        let rhs ← Expr.ofField "rhs" fields
        return .bin op lhs rhs
      | _ => throw .malformed
    else throw .malformed
  | _ => throw .malformed

def Expr.ofField (key : String) : List (String × Json) → Form.Read Expr
  | [] => throw .malformed
  | (k, v) :: rest => if k = key then Expr.ofJson v else Expr.ofField key rest

end

def Cond.ofJson (v : Json) : Form.Read Cond := do
  let op ← Form.field "op" BinOp.ofJson v
  let lhs ← Form.field "lhs" Expr.ofJson v
  let rhs ← Form.field "rhs" Expr.ofJson v
  return ⟨op, lhs, rhs⟩

/-! ## Statements -/

mutual

def Stmt.toJson : Stmt → Json
  | .assign dest value => .obj [("Assignment", .obj [("dest", dest.toJson), ("value", value.toJson)])]
  | .update op dest value =>
    .obj [("CompoundAssignment",
      .obj [("op", op.toJson), ("dest", dest.toJson), ("value", value.toJson)])]
  | .compare cond dest => .obj [("Comparison", .obj [("cond", cond.toJson), ("dest", dest.toJson)])]
  | .goto target => .obj [("UnconditionalJump", .obj [("target", .nat target)])]
  | .branch cond ifTrue ifFalse =>
    .obj [("ConditionalJump",
      .obj [("cond", cond.toJson), ("if_true", .nat ifTrue), ("if_false", .nat ifFalse)])]
  | .halt => .str "End"
  | .ifThen cond body =>
    .obj [("IfStatement", .obj [("cond", cond.toJson), ("body", .arr (Code.toJsons body))])]
  | .doUntil cond body =>
    .obj [("DoWhile", .obj [("cond", cond.toJson), ("body", .arr (Code.toJsons body))])]
  | .forUntil var init cond body =>
    .obj [("ForLoop",
      .obj [("var", var.toJson), ("init", init.toJson), ("cond", cond.toJson),
        ("body", .arr (Code.toJsons body))])]

def Code.toJsons : List Stmt → List Json
  | [] => []
  | s :: rest => s.toJson :: Code.toJsons rest

end

def Code.toJson (code : Code) : Json := .arr (Code.toJsons code)

/-- Reads a flat statement from the name of its case and its fields. -/
def Stmt.ofFlat (tag : String) (v : Json) : Form.Read Stmt := do
  if tag = "Assignment" then
    return .assign (← Form.field "dest" Reg.ofJson v) (← Form.field "value" Expr.ofJson v)
  else if tag = "CompoundAssignment" then
    return .update (← Form.field "op" BinOp.ofJson v) (← Form.field "dest" Reg.ofJson v)
      (← Form.field "value" Expr.ofJson v)
  else if tag = "Comparison" then
    return .compare (← Form.field "cond" Cond.ofJson v) (← Form.field "dest" Reg.ofJson v)
  else if tag = "UnconditionalJump" then
    return .goto (← Form.field "target" Form.line v)
  else if tag = "ConditionalJump" then
    return .branch (← Form.field "cond" Cond.ofJson v) (← Form.field "if_true" Form.line v)
      (← Form.field "if_false" Form.line v)
  else throw .malformed

mutual

def Stmt.ofJson : Json → Form.Read Stmt
  | .str name => if name = "End" then return .halt else throw .malformed
  | .obj [(tag, .obj fields)] =>
    if tag = "IfStatement" then
      return .ifThen (← Form.field "cond" Cond.ofJson (.obj fields)) (← Code.ofField "body" fields)
    else if tag = "DoWhile" then
      return .doUntil (← Form.field "cond" Cond.ofJson (.obj fields)) (← Code.ofField "body" fields)
    else if tag = "ForLoop" then
      return .forUntil (← Form.field "var" Reg.ofJson (.obj fields))
        (← Form.field "init" Expr.ofJson (.obj fields))
        (← Form.field "cond" Cond.ofJson (.obj fields)) (← Code.ofField "body" fields)
    else Stmt.ofFlat tag (.obj fields)
  | _ => throw .malformed

def Code.ofJson : Json → Form.Read (List Stmt)
  | .arr items => Code.ofJsons items
  | _ => throw .malformed

def Code.ofJsons : List Json → Form.Read (List Stmt)
  | [] => return []
  | v :: rest => return (← Stmt.ofJson v) :: (← Code.ofJsons rest)

def Code.ofField (key : String) : List (String × Json) → Form.Read (List Stmt)
  | [] => throw .malformed
  | (k, v) :: rest => if k = key then Code.ofJson v else Code.ofField key rest

end

end Unjump
