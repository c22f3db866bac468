import Unjump.Form.Decompilation
import Unjump.Proofs.JsonGrammar

/-!
# Readers of data forms

Data forms are there for others to read, and each will bring a reader of JSON and of records and
choices of its own. `Form.Readers` is what such a reader offers, and `Form.Readers.Lawful` is what
it promises: how JSON text, scalars and lists are read, that a record which is written field by
field is found to have these fields, and that a record or a choice is read when its parts are.
Nothing is said of what else it takes. It may know other ways to write a record, ignore fields or
refuse texts that nest too deep.

Only parts are promised. That whole programs and whole code are read is for us to show.

What is checked is not left to a reader. A register is a number that is looked up, and a program its
parts that are checked (`Readers.reg`, `Readers.program`).
-/

namespace Unjump.Form

structure Readers where
  text : String → Option Json
  /-- How deep a text may nest, if that is limited. -/
  limit : Option Nat
  /-- The values of the fields with these names, where a record is asked for. -/
  fields : List String → Json → Option (List Json)
  byte : Json → Read Nat
  word : Json → Read Word
  line : Json → Read Nat
  string : Json → Read String
  list : {α : Type} → (Json → Read α) → Json → Read (List α)
  opcode : Json → Read Opcode
  instruction : Json → Read Instruction
  programData : Json → Read ProgramData
  binOp : Json → Read BinOp
  expr : Json → Read Expr
  cond : Json → Read Cond
  stmt : Json → Read Stmt
  report : Json → Read Report

namespace Readers

def reg (R : Readers) (v : Json) : Read Reg := do Reg.ofByte (← R.byte v)

def program (R : Readers) (v : Json) : Read Program := do (← R.programData v).check

def code (R : Readers) : Json → Read (List Stmt) := R.list R.stmt

structure Lawful (R : Readers) : Prop where
  text {v : Json} {t : String} (h : v.IsText t) (hv : v.Portable) (hfits : v.fits R.limit) :
    R.text t = some v
  fields {keys : List String} {vs : List Json} (hkeys : keys.Nodup)
    (hlength : keys.length = vs.length) : R.fields keys (.obj (keys.zip vs)) = some vs
  byte {v : Json} {n : Nat} : R.byte v = .ok n ↔ v = .nat n ∧ n < 256
  word {v : Json} {w : Word} : R.word v = .ok w ↔ v = ofWord w
  line {n : Nat} (h : n < UInt64.size) : R.line (.nat n) = .ok n
  string (s : String) : R.string (.str s) = .ok s
  list {α : Type} {read : Json → Read α} {v : Json} {as : List α} : R.list read v = .ok as ↔
    ∃ items, v = .arr items ∧ List.Forall₂ (fun w a ↦ read w = .ok a) items as
  -- records of the machine have no other readings
  opcode (op : Opcode) : R.opcode (.str op.mnemonic) = .ok op
  instruction {v : Json} {i : Instruction} : R.instruction v = .ok i ↔
    ∃ op a b c, R.fields ["opcode", "a", "b", "c"] v = some [op, a, b, c] ∧
      R.opcode op = .ok i.opcode ∧ R.word a = .ok i.a ∧ R.word b = .ok i.b ∧ R.word c = .ok i.c
  programData {v : Json} {data : ProgramData} : R.programData v = .ok data ↔
    ∃ ip is, R.fields ["ip", "instructions"] v = some [ip, is] ∧ R.reg ip = .ok data.ip ∧
      R.list R.instruction is = .ok data.instructions
  -- expressions
  binOp (op : BinOp) : R.binOp (.str op.formName) = .ok op
  cond {v op lhs rhs : Json} {c : Cond} (h : R.fields ["op", "lhs", "rhs"] v = some [op, lhs, rhs])
    (hop : R.binOp op = .ok c.op) (hlhs : R.expr lhs = .ok c.lhs) (hrhs : R.expr rhs = .ok c.rhs) :
    R.cond v = .ok c
  register {v : Json} {r : Reg} (h : R.reg v = .ok r) :
    R.expr (.obj [("Register", v)]) = .ok (.reg r)
  literal {v : Json} {w : Word} (h : R.word v = .ok w) :
    R.expr (.obj [("Literal", v)]) = .ok (.lit w)
  binary {v : Json} {c : Cond} (h : R.cond v = .ok c) :
    R.expr (.obj [("Binary", v)]) = .ok c.toExpr
  -- statements
  assign {v d e : Json} {dest : Reg} {value : Expr} (h : R.fields ["dest", "value"] v = some [d, e])
    (hdest : R.reg d = .ok dest) (hvalue : R.expr e = .ok value) :
    R.stmt (.obj [("Assignment", v)]) = .ok (.assign dest value)
  update {v o d e : Json} {op : BinOp} {dest : Reg} {value : Expr}
    (h : R.fields ["op", "dest", "value"] v = some [o, d, e]) (hop : R.binOp o = .ok op)
    (hdest : R.reg d = .ok dest) (hvalue : R.expr e = .ok value) :
    R.stmt (.obj [("CompoundAssignment", v)]) = .ok (.update op dest value)
  compare {v c d : Json} {cond : Cond} {dest : Reg} (h : R.fields ["cond", "dest"] v = some [c, d])
    (hcond : R.cond c = .ok cond) (hdest : R.reg d = .ok dest) :
    R.stmt (.obj [("Comparison", v)]) = .ok (.compare cond dest)
  goto {v t : Json} {target : Nat} (h : R.fields ["target"] v = some [t])
    (htarget : R.line t = .ok target) :
    R.stmt (.obj [("UnconditionalJump", v)]) = .ok (.goto target)
  branch {v c t f : Json} {cond : Cond} {ifTrue ifFalse : Nat}
    (h : R.fields ["cond", "if_true", "if_false"] v = some [c, t, f]) (hcond : R.cond c = .ok cond)
    (htrue : R.line t = .ok ifTrue) (hfalse : R.line f = .ok ifFalse) :
    R.stmt (.obj [("ConditionalJump", v)]) = .ok (.branch cond ifTrue ifFalse)
  halt : R.stmt (.str "End") = .ok .halt
  ifThen {v c b : Json} {cond : Cond} {body : List Stmt}
    (h : R.fields ["cond", "body"] v = some [c, b]) (hcond : R.cond c = .ok cond)
    (hbody : R.code b = .ok body) : R.stmt (.obj [("IfStatement", v)]) = .ok (.ifThen cond body)
  doUntil {v c b : Json} {cond : Cond} {body : List Stmt}
    (h : R.fields ["cond", "body"] v = some [c, b]) (hcond : R.cond c = .ok cond)
    (hbody : R.code b = .ok body) : R.stmt (.obj [("DoWhile", v)]) = .ok (.doUntil cond body)
  forUntil {v x i c b : Json} {var : Reg} {init : Expr} {cond : Cond} {body : List Stmt}
    (h : R.fields ["var", "init", "cond", "body"] v = some [x, i, c, b]) (hvar : R.reg x = .ok var)
    (hinit : R.expr i = .ok init) (hcond : R.cond c = .ok cond) (hbody : R.code b = .ok body) :
    R.stmt (.obj [("ForLoop", v)]) = .ok (.forUntil var init cond body)
  report {v ifElses singleIfs forLoops doWhiles passes : Json} {report : Report}
    (h : R.fields ["if_else_fusions", "single_ifs", "for_loops", "do_whiles", "passes"] v =
      some [ifElses, singleIfs, forLoops, doWhiles, passes])
    (hifElses : R.line ifElses = .ok report.ifElses)
    (hsingleIfs : R.line singleIfs = .ok report.singleIfs)
    (hforLoops : R.line forLoops = .ok report.forLoops)
    (hdoWhiles : R.line doWhiles = .ok report.doWhiles)
    (hpasses : R.line passes = .ok report.passes) : R.report v = .ok report

end Readers

end Unjump.Form
