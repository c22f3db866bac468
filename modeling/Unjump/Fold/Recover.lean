import Unjump.Fold.Site

/-!
# Recovering structure

Folding is repeated until no pattern is found. Each round tries the patterns in their order and
makes the earliest fold of the first one that has any; then it starts over. Every fold shortens
the code, so this ends, and what it ends in has no fold left.

The folds that were made are kept as a list, the pattern of each with the code after it. The
recovered code is the last of these, and the report counts the patterns.
-/

namespace Unjump

/-! ## Reports -/

/-- How often each pattern was folded, and how many rounds that took. -/
structure Report where
  ifElses : Nat
  singleIfs : Nat
  forLoops : Nat
  doWhiles : Nat
  /-- The rounds, the last one included, in which nothing was found. -/
  passes : Nat
deriving DecidableEq, Repr

namespace Report

/-- No folding was tried. -/
def empty : Report := ⟨0, 0, 0, 0, 0⟩

def count (report : Report) : Pattern → Nat
  | .ifElse => report.ifElses
  | .singleIf => report.singleIfs
  | .forLoop => report.forLoops
  | .doWhile => report.doWhiles

def total (report : Report) : Nat :=
  report.ifElses + report.singleIfs + report.forLoops + report.doWhiles

/-- One more fold of a pattern. -/
def record (report : Report) : Pattern → Report
  | .ifElse => { report with ifElses := report.ifElses + 1 }
  | .singleIf => { report with singleIfs := report.singleIfs + 1 }
  | .forLoop => { report with forLoops := report.forLoops + 1 }
  | .doWhile => { report with doWhiles := report.doWhiles + 1 }

/-- One more round. -/
def begin (report : Report) : Report := { report with passes := report.passes + 1 }

/-- The report after rounds that folded these patterns and a last one that found nothing. A round
is counted when it begins. -/
def addRounds (report : Report) : List Pattern → Report
  | [] => report.begin
  | p :: ps => (report.begin.record p).addRounds ps

/-- The report on folding these patterns until nothing more was found. -/
def ofPatterns (ps : List Pattern) : Report := empty.addRounds ps

theorem passes_record (report : Report) (p : Pattern) :
    (report.record p).passes = report.passes := by
  cases p <;> rfl

theorem count_record (report : Report) (p q : Pattern) :
    (report.record p).count q = report.count q + [p].count q := by
  cases p <;> cases q <;> rfl

theorem total_record (report : Report) (p : Pattern) :
    (report.record p).total = report.total + 1 := by
  cases p <;> simp only [record, total] <;> omega

theorem passes_addRounds (report : Report) (ps : List Pattern) :
    (report.addRounds ps).passes = report.passes + (ps.length + 1) := by
  induction ps generalizing report with
  | nil => rfl
  | cons p ps ih =>
    have hbegin : report.begin.passes = report.passes + 1 := rfl
    rw [addRounds, ih, passes_record, hbegin, List.length_cons]
    omega

theorem count_addRounds (report : Report) (ps : List Pattern) (p : Pattern) :
    (report.addRounds ps).count p = report.count p + ps.count p := by
  induction ps generalizing report with
  | nil => cases p <;> rfl
  | cons q ps ih =>
    have hbegin : report.begin.count p = report.count p := by cases p <;> rfl
    rw [addRounds, ih, count_record, hbegin, Nat.add_assoc, ← List.count_append,
      List.singleton_append]

theorem total_addRounds (report : Report) (ps : List Pattern) :
    (report.addRounds ps).total = report.total + ps.length := by
  induction ps generalizing report with
  | nil => rfl
  | cons p ps ih =>
    have hbegin : report.begin.total = report.total := rfl
    rw [addRounds, ih, total_record, hbegin, List.length_cons]
    omega

theorem passes_ofPatterns (ps : List Pattern) : (ofPatterns ps).passes = ps.length + 1 := by
  rw [ofPatterns, passes_addRounds, empty, Nat.zero_add]

theorem count_ofPatterns (ps : List Pattern) (p : Pattern) :
    (ofPatterns ps).count p = ps.count p := by
  have hempty : empty.count p = 0 := by cases p <;> rfl
  rw [ofPatterns, count_addRounds, hempty, Nat.zero_add]

/-- Every fold is counted once. -/
theorem total_ofPatterns (ps : List Pattern) : (ofPatterns ps).total = ps.length := by
  have hempty : empty.total = 0 := rfl
  rw [ofPatterns, total_addRounds, hempty, Nat.zero_add]

end Report

/-! ## Folding to the end -/

namespace Recover

/-- One round: the pattern that was folded and the code after it. -/
def step? (ip : Reg) (code : Code) : Option (Pattern × Code) :=
  Pattern.priority.findSome? fun p ↦
    match p.foldInPlace ip code with
    | (true, code') => some (p, code')
    | (false, _) => none

theorem step?_eq_findSome? (ip : Reg) (code : Code) :
    step? ip code = Pattern.priority.findSome? fun p ↦
      (p.foldFirst? ip code).map fun code' ↦ (p, code') := by
  unfold step? Pattern.foldInPlace
  congr 1
  funext p
  cases p.foldFirst? ip code <;> rfl

theorem foldFirst?_of_step? {ip : Reg} {code code' : Code} {p : Pattern}
    (h : step? ip code = some (p, code')) : p.foldFirst? ip code = some code' := by
  rw [step?_eq_findSome?] at h
  obtain ⟨q, -, hq⟩ := List.exists_of_findSome?_eq_some h
  obtain ⟨c, hc, heq⟩ := Option.map_eq_some_iff.mp hq
  cases heq
  exact hc

/-- Fusions come first. -/
theorem step?_of_foldFirst?_ifElse {ip : Reg} {code code' : Code}
    (h : Pattern.ifElse.foldFirst? ip code = some code') :
    step? ip code = some (.ifElse, code') := by
  rw [step?_eq_findSome?, Pattern.priority, List.findSome?_cons, h]
  rfl

/-- **Every round shortens the code.** -/
theorem length_lt_of_step? {ip : Reg} {code code' : Code} {p : Pattern}
    (h : step? ip code = some (p, code')) : code'.length < code.length :=
  Pattern.length_lt_of_foldFirst? (foldFirst?_of_step? h)

theorem step?_eq_none_iff {ip : Reg} {code : Code} :
    step? ip code = none ↔ ∀ p : Pattern, p.foldFirst? ip code = none := by
  simp only [step?_eq_findSome?, List.findSome?_eq_none_iff, Option.map_eq_none_iff]
  exact ⟨fun h p ↦ h p p.mem_priority, fun h p _ ↦ h p⟩

/-- All rounds that found something. -/
def steps (ip : Reg) (code : Code) : List (Pattern × Code) :=
  match h : step? ip code with
  | none => []
  | some (p, code') =>
    have : code'.length < code.length := length_lt_of_step? h
    (p, code') :: steps ip code'
termination_by code.length

theorem steps_of_none {ip : Reg} {code : Code} (h : step? ip code = none) : steps ip code = [] := by
  rw [steps]
  split
  · rfl
  · next h' => rw [h] at h'; cases h'

theorem steps_of_some {ip : Reg} {code code' : Code} {p : Pattern}
    (h : step? ip code = some (p, code')) : steps ip code = (p, code') :: steps ip code' := by
  rw [steps]
  split
  · next h' => rw [h] at h'; cases h'
  · next h' =>
    rw [h] at h'
    cases h'
    rfl

/-- The code after the last of some rounds. -/
def last (code : Code) : List (Pattern × Code) → Code
  | [] => code
  | (_, code') :: rest => last code' rest

end Recover

namespace Code

/-- The code in which no pattern is left to fold. -/
def recover (ip : Reg) (code : Code) : Code := Recover.last code (Recover.steps ip code)

def recoverReport (ip : Reg) (code : Code) : Report :=
  .ofPatterns ((Recover.steps ip code).map Prod.fst)

theorem recover_of_none {ip : Reg} {code : Code} (h : Recover.step? ip code = none) :
    Code.recover ip code = code := by
  rw [Code.recover, Recover.steps_of_none h, Recover.last]

theorem recover_of_some {ip : Reg} {code code' : Code} {p : Pattern}
    (h : Recover.step? ip code = some (p, code')) :
    Code.recover ip code = Code.recover ip code' := by
  rw [Code.recover, Recover.steps_of_some h, Recover.last, Code.recover]

/-- **In recovered code no pattern is left.** -/
theorem step?_recover (ip : Reg) (code : Code) :
    Recover.step? ip (Code.recover ip code) = none := by
  cases h : Recover.step? ip code with
  | none => rw [recover_of_none h, h]
  | some pc =>
    obtain ⟨p, code'⟩ := pc
    have := Recover.length_lt_of_step? h
    rw [recover_of_some h]
    exact step?_recover ip code'
termination_by code.length

end Code

end Unjump
