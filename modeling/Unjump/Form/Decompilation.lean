import Unjump.Decompile
import Unjump.Form.Code
import Unjump.Json.Writer

/-!
# Data forms of decompilations

```text
pattern         "IfElseFusion"  "SingleIf"  "ForLoop"  "DoWhile"
target policy   "PreserveTargets"  "Renumber"
line numbers    "Always"  "WhenJumpsRemain"  "Never"
report          {"if_else_fusions": n, "single_ifs": n, "for_loops": n, "do_whiles": n,
                 "passes": n}
decompilation   {"ip": register, "nodes": [statement, ..], "source": text, "report": report,
                 "warnings": [text, ..]}
```
-/

namespace Unjump

/-! ## Names -/

def Pattern.formName : Pattern → String
  | ifElse => "IfElseFusion"
  | singleIf => "SingleIf"
  | forLoop => "ForLoop"
  | doWhile => "DoWhile"

def Pattern.ofJson (v : Json) : Form.Read Pattern :=
  Form.named (fun name ↦ priority.find? fun p ↦ p.formName == name) v

def TargetPolicy.formName : TargetPolicy → String
  | preserve => "PreserveTargets"
  | renumber => "Renumber"

def TargetPolicy.ofJson (v : Json) : Form.Read TargetPolicy :=
  Form.named (fun name ↦ [preserve, renumber].find? fun p ↦ p.formName == name) v

def LineNumbers.formName : LineNumbers → String
  | always => "Always"
  | whenJumpsRemain => "WhenJumpsRemain"
  | never => "Never"

def LineNumbers.ofJson (v : Json) : Form.Read LineNumbers :=
  Form.named (fun name ↦ [always, whenJumpsRemain, never].find? fun n ↦ n.formName == name) v

/-! ## Reports -/

def Report.toJson (report : Report) : Json :=
  .obj [("if_else_fusions", .nat report.ifElses), ("single_ifs", .nat report.singleIfs),
    ("for_loops", .nat report.forLoops), ("do_whiles", .nat report.doWhiles),
    ("passes", .nat report.passes)]

def Report.ofJson (v : Json) : Form.Read Report := do
  let ifElses ← Form.field "if_else_fusions" Form.line v
  let singleIfs ← Form.field "single_ifs" Form.line v
  let forLoops ← Form.field "for_loops" Form.line v
  let doWhiles ← Form.field "do_whiles" Form.line v
  let passes ← Form.field "passes" Form.line v
  return ⟨ifElses, singleIfs, forLoops, doWhiles, passes⟩

/-! ## Decompilations -/

namespace Decompilation

def toJson (d : Decompilation) : Json :=
  .obj [("ip", d.ip.toJson), ("nodes", Code.toJson d.code), ("source", .str d.source),
    ("report", d.report.toJson), ("warnings", .arr (d.warnings.map fun w ↦ .str w.message))]

def text (d : Decompilation) : String := d.toJson.pretty

end Decompilation

end Unjump
