import Unjump.Code.Stmt

/-!
# Pseudocode

Code as text for a reader. Every statement takes one line, a structured one a line before and a
line after its body, and bodies are indented. A header names the pointer register.

Where jumps remain, the lines of the outermost list have to be found: their numbers then stand in
front, at least four digits wide, and the other lines of a statement are indented by six blanks.
That is the width of a number with four digits, so from line 10000 on the first line of a statement
stands further to the right than the rest of it.
-/

namespace Unjump

/-! ## Layout -/

/-- When line numbers are shown. -/
inductive LineNumbers where
  | always
  /-- When some statement transfers control to a line. -/
  | whenJumpsRemain
  | never
deriving DecidableEq, Repr

/-- How pseudocode is laid out. -/
structure Layout where
  lineNumbers : LineNumbers := .whenJumpsRemain
  /-- What a line is indented with, once for each body around it. -/
  indent : String := "    "
deriving DecidableEq, Repr

/-! ## Statements -/

/-- The indentation of a line inside `depth` bodies. -/
def Layout.pad (indent : String) (depth : Nat) : String := String.join (List.replicate depth indent)

mutual

/-- The lines of a statement inside `depth` bodies. -/
def Stmt.lines (indent : String) (depth : Nat) : Stmt → List String
  | .assign dest value => [Layout.pad indent depth ++ dest.name ++ " = " ++ value.text ++ ";"]
  | .update op dest value =>
    [Layout.pad indent depth ++ dest.name ++ " " ++ op.symbol ++ "= " ++ value.text ++ ";"]
  | .compare cond dest =>
    [Layout.pad indent depth ++ dest.name ++ " = (" ++ cond.text ++ ") ? 1 : 0;"]
  | .goto target => [Layout.pad indent depth ++ "goto " ++ target.repr ++ ";"]
  | .branch cond ifTrue ifFalse =>
    [Layout.pad indent depth ++ "if (" ++ cond.text ++ ") goto " ++ ifTrue.repr ++
      "; else goto " ++ ifFalse.repr ++ ";"]
  | .halt => [Layout.pad indent depth ++ "end;"]
  | .ifThen cond body =>
    (Layout.pad indent depth ++ "if (" ++ cond.text ++ ") \x7b") ::
      (Code.lines indent (depth + 1) body ++ [Layout.pad indent depth ++ "\x7d"])
  | .doUntil cond body =>
    (Layout.pad indent depth ++ "do \x7b") ::
      (Code.lines indent (depth + 1) body ++
        [Layout.pad indent depth ++ "\x7d while (!(" ++ cond.text ++ "));"])
  | .forUntil var init cond body =>
    (Layout.pad indent depth ++ "for (" ++ var.name ++ " = " ++ init.text ++ "; !(" ++ cond.text ++
        "); " ++ var.name ++ "++) \x7b") ::
      (Code.lines indent (depth + 1) body ++ [Layout.pad indent depth ++ "\x7d"])

def Code.lines (indent : String) (depth : Nat) : List Stmt → List String
  | [] => []
  | s :: rest => s.lines indent depth ++ Code.lines indent depth rest

end

/-! ## The whole text -/

namespace Pseudocode

/-- A line number with at least four digits. -/
def lineNumber (n : Nat) : String :=
  String.ofList (List.replicate (4 - n.repr.length) '0') ++ n.repr

/-- Puts a line number in front of the first line, and six blanks in front of the others. -/
def numbered (line : Nat) : List String → List String
  | [] => []
  | first :: rest => (lineNumber line ++ ": " ++ first) :: rest.map ("      " ++ ·)

def isNumbered (lineNumbers : LineNumbers) (ip : Reg) (code : Code) : Bool :=
  match lineNumbers with
  | .always => true
  | .never => false
  | .whenJumpsRemain => Code.transfers ip code

/-- The lines of the text after its header. -/
def lines (layout : Layout) (ip : Reg) (code : Code) : List String :=
  if isNumbered layout.lineNumbers ip code then
    code.zipIdx.flatMap fun (s, line) ↦ numbered line (s.lines layout.indent 0)
  else code.flatMap fun s ↦ s.lines layout.indent 0

def header (ip : Reg) : String := "// Decompiled elfcode (#ip " ++ ip.val.repr ++ ")"

/-- The pseudocode of some code, each line ended by a newline. -/
def emit (layout : Layout) (ip : Reg) (code : Code) : String :=
  String.join ((header ip :: lines layout ip code).map (· ++ "\n"))

end Pseudocode

end Unjump
