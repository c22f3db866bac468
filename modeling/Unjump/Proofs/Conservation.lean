import Mathlib.Algebra.GroupWithZero.Nat
import Unjump.Proofs.Fixpoint
import Unjump.Proofs.SkipSites

/-!
# Nothing gets lost in recovering

Folding moves statements into bodies, and takes away only what the new statement says by its form:
the branches that close an `ifThen` or a loop, and the comparison, skip and jump that a branch
stands for. To compare code before and after, its structure is taken out again in two ways.
*Flattening* puts every body in the place of its statement and writes the header of a counting loop
as the assignment and the counting that it stands for. The *parts* of code are its statements at
every depth, structured ones included.

## What one fold does

`Pattern.Turns` lists, pattern by pattern, the lines that a fold takes and the statement it gives
for them. Everything that is counted below is counted for these four cases once. It then holds of a
fold wherever it is made, because the lines around it keep their statements up to targets
(`Fold.flatMap_apply`), and of recovering because that is a sequence of folds
(`Recover.Leads.balance`).
-/

namespace Unjump

/-! ## Flattening -/

mutual

/-- The flat statements that a statement stands for, without the branches of its form. -/
def Stmt.flatten : Stmt → List Stmt
  | .ifThen _ body => Code.flatten body
  | .doUntil _ body => Code.flatten body
  | .forUntil var init _ body =>
    .assign var init :: (Code.flatten body ++ [.update .add var (.lit 1)])
  | .assign dest value => [.assign dest value]
  | .update op dest value => [.update op dest value]
  | .compare cond dest => [.compare cond dest]
  | .goto target => [.goto target]
  | .branch cond ifTrue ifFalse => [.branch cond ifTrue ifFalse]
  | .halt => [.halt]

/-- The flat statements that some code stands for. -/
def Code.flatten : List Stmt → List Stmt
  | [] => []
  | s :: rest => s.flatten ++ Code.flatten rest

end

mutual

/-- A statement and the statements in its body, at every depth. -/
def Stmt.parts : Stmt → List Stmt
  | .ifThen cond body => .ifThen cond body :: Code.parts body
  | .doUntil cond body => .doUntil cond body :: Code.parts body
  | .forUntil var init cond body => .forUntil var init cond body :: Code.parts body
  | .assign dest value => [.assign dest value]
  | .update op dest value => [.update op dest value]
  | .compare cond dest => [.compare cond dest]
  | .goto target => [.goto target]
  | .branch cond ifTrue ifFalse => [.branch cond ifTrue ifFalse]
  | .halt => [.halt]

/-- The statements of some code at every depth. -/
def Code.parts : List Stmt → List Stmt
  | [] => []
  | s :: rest => s.parts ++ Code.parts rest

end

namespace Code

theorem flatten_eq_flatMap (code : Code) : Code.flatten code = code.flatMap Stmt.flatten := by
  induction code with
  | nil => rfl
  | cons s rest ih => rw [Code.flatten, ih, List.flatMap_cons]

theorem parts_eq_flatMap (code : Code) : Code.parts code = code.flatMap Stmt.parts := by
  induction code with
  | nil => rfl
  | cons s rest ih => rw [Code.parts, ih, List.flatMap_cons]

theorem flatten_append (first second : Code) :
    Code.flatten (first ++ second) = Code.flatten first ++ Code.flatten second := by
  simp only [flatten_eq_flatMap, List.flatMap_append]

theorem parts_append (first second : Code) :
    Code.parts (first ++ second) = Code.parts first ++ Code.parts second := by
  simp only [parts_eq_flatMap, List.flatMap_append]

end Code

mutual

theorem Stmt.flatten_mapTargets (g : Nat → Nat) (s : Stmt) :
    (s.mapTargets g).flatten = s.flatten.map (Stmt.mapTargets g) := by
  match s with
  | .ifThen cond body => exact Code.flatten_mapTargets g body
  | .doUntil cond body => exact Code.flatten_mapTargets g body
  | .forUntil var init cond body =>
    simp only [Stmt.mapTargets, Stmt.flatten, List.map_cons, List.map_append, List.map_nil]
    rw [Code.flatten_mapTargets g body]
  | .assign .. | .update .. | .compare .. | .goto _ | .branch .. | .halt => rfl

theorem Code.flatten_mapTargets (g : Nat → Nat) (code : List Stmt) :
    Code.flatten (Code.mapTargets g code) = (Code.flatten code).map (Stmt.mapTargets g) := by
  match code with
  | [] => rfl
  | s :: rest =>
    simp only [Code.mapTargets, Code.flatten, List.map_append]
    rw [Stmt.flatten_mapTargets g s, Code.flatten_mapTargets g rest]

end

mutual

theorem Stmt.parts_mapTargets (g : Nat → Nat) (s : Stmt) :
    (s.mapTargets g).parts = s.parts.map (Stmt.mapTargets g) := by
  match s with
  | .ifThen cond body | .doUntil cond body | .forUntil var init cond body =>
    simp only [Stmt.mapTargets, Stmt.parts, List.map_cons]
    rw [Code.parts_mapTargets g body]
  | .assign .. | .update .. | .compare .. | .goto _ | .branch .. | .halt => rfl

theorem Code.parts_mapTargets (g : Nat → Nat) (code : List Stmt) :
    Code.parts (Code.mapTargets g code) = (Code.parts code).map (Stmt.mapTargets g) := by
  match code with
  | [] => rfl
  | s :: rest =>
    simp only [Code.mapTargets, Code.parts, List.map_append]
    rw [Stmt.parts_mapTargets g s, Code.parts_mapTargets g rest]

end

/-! ## Forms -/

namespace Stmt

/-- What a statement is, whatever it is made of. -/
inductive Form where
  | assign | update | compare | goto | branch | halt | ifThen | doUntil | forUntil
deriving DecidableEq

def form : Stmt → Form
  | assign .. => .assign
  | update .. => .update
  | compare .. => .compare
  | goto _ => .goto
  | branch .. => .branch
  | halt => .halt
  | ifThen .. => .ifThen
  | doUntil .. => .doUntil
  | forUntil .. => .forUntil

def is (form : Form) (s : Stmt) : Bool := s.form == form

/-- Whether a flat statement stores a value that no fold uses up, or stops the run. -/
def lasts (ip : Reg) : Stmt → Bool
  | assign .. | halt => true
  | update _ dest _ => dest != ip
  | _ => false

variable (g : Nat → Nat) (s : Stmt)

theorem is_mapTargets (form : Form) : (s.mapTargets g).is form = s.is form := by
  cases s <;> rfl

theorem updates_mapTargets (i : Reg) : (s.mapTargets g).updates i = s.updates i := by
  cases s <;> rfl

theorem lasts_mapTargets (ip : Reg) : (s.mapTargets g).lasts ip = s.lasts ip := by
  cases s <;> rfl

theorem mapTargets_of_lasts {ip : Reg} {s : Stmt} (h : s.lasts ip) : s.mapTargets g = s := by
  cases s <;> first | rfl | cases h

theorem filter_lasts_map (ip : Reg) (code : List Stmt) :
    (code.map (mapTargets g)).filter (lasts ip) = code.filter (lasts ip) := by
  have hblind : lasts ip ∘ mapTargets g = lasts ip := funext fun s ↦ s.lasts_mapTargets g ip
  rw [List.filter_map, hblind]
  refine (List.map_congr_left fun s hs ↦ ?_).trans (List.map_id _)
  exact mapTargets_of_lasts g (List.mem_filter.mp hs).2

end Stmt

/-! ## One fold -/

namespace Fold

/-- The lines that a fold takes. -/
def stretch (f : Fold) (code : Code) : Code := (code.drop f.start).take (f.removed + 1)

/-- The lines before a fold, those it takes and those behind it are all the code. -/
theorem take_stretch_drop (f : Fold) (code : Code) :
    code.take f.start ++ (f.stretch code ++ code.drop (f.start + f.removed + 1)) = code := by
  rw [stretch, Nat.add_assoc, ← List.drop_drop, List.take_append_drop, List.take_append_drop]

end Fold

/-- What a pattern takes and what it gives for it. -/
inductive Pattern.Turns (ip : Reg) : Pattern → Code → Stmt → Prop
  | ifElse (cond : Cond) (flag : Reg) (target after : Nat) :
    Turns ip .ifElse [.compare cond flag, .update .add ip (.reg flag), .goto target]
      (.branch cond after target)
  | singleIf (cond : Cond) (ifTrue ifFalse : Nat) (s : Stmt) :
    Turns ip .singleIf [.branch cond ifTrue ifFalse, s] (.ifThen cond [s])
  | forLoop {var : Reg} (init : Expr) (cond : Cond) (body : List Stmt) (hvar : var ≠ ip) :
    Turns ip .forLoop [.assign var init, .doUntil cond (body ++ [.update .add var (.lit 1)])]
      (.forUntil var init cond body)
  | doWhile (cond : Cond) (ifTrue ifFalse : Nat) (body : List Stmt) :
    Turns ip .doWhile (body ++ [.branch cond ifTrue ifFalse]) (.doUntil cond body)

namespace Code.HasBlock

variable {code : Code} {line : Nat} {block : List Stmt}

theorem nil (code : Code) (line : Nat) : HasBlock code line [] := by
  intro i s hs
  cases hs

theorem cons {s : Stmt} (hs : code[line]? = some s) (h : HasBlock code (line + 1) block) :
    HasBlock code line (s :: block) := by
  intro i s' hs'
  rcases i with _ | i
  · rwa [List.getElem?_cons_zero, ← hs] at hs'
  · rw [show line + (i + 1) = line + 1 + i from by omega]
    exact h i s' hs'

theorem concat {s : Stmt} (h : HasBlock code line block)
    (hs : code[line + block.length]? = some s) : HasBlock code line (block ++ [s]) := by
  intro i s' hs'
  rw [List.getElem?_append] at hs'
  split at hs'
  · exact h i s' hs'
  · next hle =>
    rw [List.getElem?_singleton] at hs'
    split at hs'
    · next hi =>
      rw [← hs', ← hs]
      congr 1
      omega
    · cases hs'

/-- A fold takes the block that stands from its start on, if the block is as long. -/
theorem stretch_eq {f : Fold} (h : HasBlock code f.start block)
    (hlen : block.length = f.removed + 1) : f.stretch code = block := by
  refine List.ext_getElem? fun i ↦ ?_
  rw [Fold.stretch, List.getElem?_take, List.getElem?_drop, ← hlen]
  split
  · next hi =>
    rw [List.getElem?_eq_getElem hi]
    exact h i _ (List.getElem?_eq_getElem hi)
  · next hi => rw [List.getElem?_eq_none (Nat.le_of_not_lt hi)]

end Code.HasBlock

namespace Pattern

variable {ip : Reg} {code : Code} {f : Fold} {p : Pattern}

/-- **A fold is one of the four.** -/
theorem turns_of_find? (hf : p.find? ip code = some f) : p.Turns ip (f.stretch code) f.stmt := by
  obtain ⟨line, -, hat⟩ := exists_of_firstFrom hf
  rw [Nat.zero_add] at hat
  cases p with
  | ifElse =>
    obtain ⟨cond, flag, target, hs, rfl⟩ := Code.ifElseAt_eq_some_iff.mp hat
    have hblock := (Code.HasBlock.nil code _).cons hs.jump |>.cons hs.skip |>.cons hs.compare
    rw [hblock.stretch_eq (f := .fusion line cond target) rfl]
    exact .ifElse cond flag target _
  | singleIf =>
    obtain ⟨cond, s, hbranch, hs, -, -, rfl⟩ := singleIf_shape hat
    have hblock := (Code.HasBlock.nil code _).cons hs |>.cons hbranch
    rw [hblock.stretch_eq (f := ⟨line, 1, _⟩) rfl]
    exact .singleIf cond _ _ s
  | forLoop =>
    obtain ⟨var, init, cond, body, hvar, hassign, hloop, -, -, rfl⟩ := forLoop_shape hat
    have hblock := (Code.HasBlock.nil code _).cons hloop |>.cons hassign
    rw [hblock.stretch_eq (f := ⟨line, 1, _⟩) rfl]
    exact .forLoop init cond body hvar
  | doWhile =>
    obtain ⟨cond, head, body, hlt, hblock, rfl, hbranch, -, -, rfl⟩ := doWhile_shape hat
    rw [(hblock.concat hbranch).stretch_eq (f := ⟨head, head + body.length - head, _⟩)]
    · exact .doWhile cond _ _ body
    · rw [List.length_append, Nat.add_sub_cancel_left]
      rfl

/-- What lasts is what it was, in the order in which it was. -/
theorem Turns.filter_lasts {stretch : Code} {s : Stmt} (h : p.Turns ip stretch s) :
    s.flatten.filter (Stmt.lasts ip) = (Code.flatten stretch).filter (Stmt.lasts ip) := by
  cases h with
  | ifElse cond flag target after => simp [Stmt.flatten, Code.flatten, Stmt.lasts]
  | singleIf cond ifTrue ifFalse s => simp [Stmt.flatten, Code.flatten, Stmt.lasts]
  | forLoop init cond body hvar =>
    simp [Stmt.flatten, Code.flatten, Code.flatten_append]
  | doWhile cond ifTrue ifFalse body =>
    simp [Stmt.flatten, Code.flatten, Code.flatten_append, Stmt.lasts]

end Pattern

/-! ## Counting along folds -/

/-- A way of listing a statement that does not depend on its targets. -/
def TargetBlind (view : Stmt → List Stmt) : Prop :=
  ∀ g s, view (s.mapTargets g) = (view s).map (Stmt.mapTargets g)

namespace Fold

variable {view : Stmt → List Stmt}

theorem flatMap_apply (hview : TargetBlind view) (f : Fold) (code : Code) :
    (f.apply code).flatMap view =
      ((code.take f.start).flatMap view ++
        (view f.stmt ++ (code.drop (f.start + f.removed + 1)).flatMap view)).map
          (Stmt.mapTargets f.renumber) := by
  rw [apply_eq_mapTargets, Code.mapTargets_eq_map, List.flatMap_map, surviving,
    ← List.flatMap_cons, ← List.flatMap_append, List.map_flatMap]
  exact congrArg (List.flatMap · _) (funext fun s ↦ hview f.renumber s)

theorem flatMap_eq (view : Stmt → List Stmt) (f : Fold) (code : Code) :
    code.flatMap view =
      (code.take f.start).flatMap view ++
        ((f.stretch code).flatMap view ++
          (code.drop (f.start + f.removed + 1)).flatMap view) := by
  rw [← List.flatMap_append, ← List.flatMap_append, take_stretch_drop]

end Fold

/-- A fold changes a quantity by what its pattern takes and gives, wherever it is made. -/
def Balanced (ip : Reg) (quantity : Code → Nat) (taken given : Pattern → Nat) : Prop :=
  ∀ ⦃code : Code⦄ ⦃p : Pattern⦄ ⦃f : Fold⦄, p.find? ip code = some f →
    quantity (f.apply code) + taken p = quantity code + given p

section

variable {ip : Reg} {taken given : Pattern → Nat}

/-- What is counted balances if it does in the lines that are turned. -/
theorem balanced_countP {view : Stmt → List Stmt} {φ : Stmt → Bool} (hview : TargetBlind view)
    (hφ : ∀ g s, φ (s.mapTargets g) = φ s)
    (hturns : ∀ ⦃p stretch s⦄, Pattern.Turns ip p stretch s →
      (view s).countP φ + taken p = (stretch.flatMap view).countP φ + given p) :
    Balanced ip (fun code ↦ (code.flatMap view).countP φ) taken given := by
  intro code p f hf
  have hcount := hturns (Pattern.turns_of_find? hf)
  have hblind : φ ∘ Stmt.mapTargets f.renumber = φ := funext (hφ f.renumber)
  simp only [f.flatMap_apply hview, List.countP_map, hblind, f.flatMap_eq view code,
    List.countP_append]
  omega

theorem Recover.Leads.balance {quantity : Code → Nat}
    (hbalance : Balanced ip quantity taken given) {code out : Code} {ps : List Pattern}
    (h : Leads ip code ps out) :
    quantity out + (ps.map taken).sum = quantity code + (ps.map given).sum := by
  induction h with
  | refl code => rfl
  | fold hstep _ ih =>
    obtain ⟨f, hf, rfl⟩ := Option.map_eq_some_iff.mp (foldFirst?_of_step? hstep)
    have hone := hbalance hf
    rw [List.map_cons, List.sum_cons, List.map_cons, List.sum_cons]
    omega

end

namespace Report

/-- What the folds of a report come to if each counts for as much as `weight` says. -/
def weigh (report : Report) (weight : Pattern → Nat) : Nat :=
  report.ifElses * weight .ifElse + report.singleIfs * weight .singleIf +
    report.forLoops * weight .forLoop + report.doWhiles * weight .doWhile

theorem weigh_record (report : Report) (p : Pattern) (weight : Pattern → Nat) :
    (report.record p).weigh weight = report.weigh weight + weight p := by
  cases p <;> simp only [record, weigh, Nat.succ_mul] <;> omega

theorem weigh_addRounds (report : Report) (ps : List Pattern) (weight : Pattern → Nat) :
    (report.addRounds ps).weigh weight = report.weigh weight + (ps.map weight).sum := by
  induction ps generalizing report with
  | nil => rfl
  | cons p ps ih =>
    have hbegin : report.begin.weigh weight = report.weigh weight := rfl
    rw [addRounds, ih, weigh_record, hbegin, List.map_cons, List.sum_cons, Nat.add_assoc]

theorem sum_map_eq_weigh (ps : List Pattern) (weight : Pattern → Nat) :
    (ps.map weight).sum = (ofPatterns ps).weigh weight := by
  have hempty : empty.weigh weight = 0 := by simp [weigh, empty]
  rw [ofPatterns, weigh_addRounds, hempty, Nat.zero_add]

end Report

/-- **What balances over one fold balances over recovering**, by its report. -/
theorem Balanced.recover {ip : Reg} {quantity : Code → Nat} {taken given : Pattern → Nat}
    (hbalance : Balanced ip quantity taken given) (code : Code) :
    quantity (Code.recover ip code) + (Code.recoverReport ip code).weigh taken =
      quantity code + (Code.recoverReport ip code).weigh given := by
  rw [Code.recoverReport, ← Report.sum_map_eq_weigh, ← Report.sum_map_eq_weigh]
  exact (Recover.leads_recover ip code).balance hbalance

/-! ## What is counted -/

namespace Pattern

/-- The forms of the statements that a pattern takes away. -/
def taken : Pattern → List Stmt.Form
  | ifElse => [.compare, .update, .goto]
  | singleIf => [.branch]
  | forLoop => [.assign, .doUntil, .update]
  | doWhile => [.branch]

/-- The form of the statement that a pattern puts in. -/
def given : Pattern → Stmt.Form
  | ifElse => .branch
  | singleIf => .ifThen
  | forLoop => .forUntil
  | doWhile => .doUntil

theorem Turns.countP_parts {ip : Reg} {p : Pattern} {stretch : Code} {s : Stmt}
    (h : p.Turns ip stretch s) (form : Stmt.Form) :
    s.parts.countP (Stmt.is form) + p.taken.count form =
      (Code.parts stretch).countP (Stmt.is form) + [p.given].count form := by
  cases h with
  | ifElse cond flag target after =>
    simp only [Stmt.parts, Code.parts, List.cons_append, List.nil_append, List.countP_cons,
      List.countP_nil, List.count_cons, List.count_nil, Stmt.is, Stmt.form, beq_iff_eq, taken,
      given]
    omega
  | singleIf cond ifTrue ifFalse s =>
    simp only [Stmt.parts, Code.parts, List.append_nil, List.cons_append, List.nil_append,
      List.countP_cons, List.count_cons, List.count_nil, Stmt.is, Stmt.form, beq_iff_eq, taken,
      given]
    omega
  | forLoop init cond body hvar =>
    simp only [Stmt.parts, Code.parts, Code.parts_append, List.append_nil, List.cons_append,
      List.nil_append, List.countP_append, List.countP_cons, List.countP_nil, List.count_cons,
      List.count_nil, Stmt.is, Stmt.form, beq_iff_eq, taken,
      given]
    omega
  | doWhile cond ifTrue ifFalse body =>
    simp only [Stmt.parts, Code.parts, Code.parts_append, List.append_nil, List.countP_append,
      List.countP_cons, List.countP_nil, List.count_cons, List.count_nil, Stmt.is, Stmt.form,
      beq_iff_eq, taken, given]
    omega

/-- The skip of a fusion is the only update of the pointer that any pattern takes. -/
theorem Turns.countP_updates {ip : Reg} {p : Pattern} {stretch : Code} {s : Stmt}
    (h : p.Turns ip stretch s) :
    s.parts.countP (Stmt.updates ip) + [Pattern.ifElse].count p =
        (Code.parts stretch).countP (Stmt.updates ip) ∧
      s.flatten.countP (Stmt.updates ip) + [Pattern.ifElse].count p =
        (Code.flatten stretch).countP (Stmt.updates ip) := by
  cases h with
  | ifElse cond flag target after =>
    simp [Stmt.parts, Code.parts, Stmt.flatten, Code.flatten, Stmt.updates]
  | singleIf cond ifTrue ifFalse s =>
    simp [Stmt.parts, Code.parts, Stmt.flatten, Code.flatten, Stmt.updates]
  | forLoop init cond body hvar =>
    simp [Stmt.parts, Code.parts, Code.parts_append, Stmt.flatten, Code.flatten,
      Code.flatten_append, Stmt.updates, hvar]
  | doWhile cond ifTrue ifFalse body =>
    simp [Stmt.parts, Code.parts, Code.parts_append, Stmt.flatten, Code.flatten,
      Code.flatten_append, Stmt.updates]

end Pattern

/-- Statements at every depth, by form, balance. -/
theorem balanced_parts (ip : Reg) (form : Stmt.Form) :
    Balanced ip (fun code ↦ (Code.parts code).countP (Stmt.is form))
      (fun p ↦ p.taken.count form) fun p ↦ [p.given].count form := by
  simp only [Code.parts_eq_flatMap]
  refine balanced_countP Stmt.parts_mapTargets (fun g s ↦ s.is_mapTargets g form)
    fun p stretch s h ↦ ?_
  rw [← Code.parts_eq_flatMap]
  exact h.countP_parts form

theorem balanced_parts_updates (ip : Reg) :
    Balanced ip (fun code ↦ (Code.parts code).countP (Stmt.updates ip))
      (fun p ↦ [.ifElse].count p) fun _ ↦ 0 := by
  simp only [Code.parts_eq_flatMap]
  refine balanced_countP Stmt.parts_mapTargets (fun g s ↦ s.updates_mapTargets g ip)
    fun p stretch s h ↦ ?_
  rw [← Code.parts_eq_flatMap]
  exact h.countP_updates.1

theorem balanced_flatten_updates (ip : Reg) :
    Balanced ip (fun code ↦ (Code.flatten code).countP (Stmt.updates ip))
      (fun p ↦ [.ifElse].count p) fun _ ↦ 0 := by
  simp only [Code.flatten_eq_flatMap]
  refine balanced_countP Stmt.flatten_mapTargets (fun g s ↦ s.updates_mapTargets g ip)
    fun p stretch s h ↦ ?_
  rw [← Code.flatten_eq_flatMap]
  exact h.countP_updates.2

mutual

/-- Flattening drops no comparison, jump or branch that stands in a body, and makes none. -/
theorem Stmt.countP_flatten {form : Stmt.Form} (h : form ∈ [.compare, .goto, .branch]) (s : Stmt) :
    s.flatten.countP (Stmt.is form) = s.parts.countP (Stmt.is form) := by
  have hother (s' : Stmt) (hs' : s'.form ∉ [.compare, .goto, .branch]) : ¬s'.is form := by
    intro his
    rw [Stmt.is, beq_iff_eq] at his
    exact hs' (his ▸ h)
  match s with
  | .ifThen cond body =>
    rw [Stmt.flatten, Stmt.parts, Code.countP_flatten h body,
      List.countP_cons_of_neg (hother _ (by simp [Stmt.form]))]
  | .doUntil cond body =>
    rw [Stmt.flatten, Stmt.parts, Code.countP_flatten h body,
      List.countP_cons_of_neg (hother _ (by simp [Stmt.form]))]
  | .forUntil var init cond body =>
    rw [Stmt.flatten, Stmt.parts, List.countP_cons_of_neg (hother _ (by simp [Stmt.form])),
      List.countP_append, Code.countP_flatten h body,
      List.countP_cons_of_neg (hother _ (by simp [Stmt.form])), List.countP_nil, Nat.add_zero,
      List.countP_cons_of_neg (hother _ (by simp [Stmt.form]))]
  | .assign .. | .update .. | .compare .. | .goto _ | .branch .. | .halt => rfl

theorem Code.countP_flatten {form : Stmt.Form} (h : form ∈ [.compare, .goto, .branch])
    (code : List Stmt) :
    (Code.flatten code).countP (Stmt.is form) = (Code.parts code).countP (Stmt.is form) := by
  match code with
  | [] => rfl
  | s :: rest =>
    rw [Code.flatten, Code.parts, List.countP_append, List.countP_append,
      Stmt.countP_flatten h s, Code.countP_flatten h rest]

end

theorem Code.countP_view {form : Stmt.Form} (h : form ∈ [.compare, .goto, .branch])
    {view : Code → List Stmt} (hview : view ∈ [Code.flatten, Code.parts]) (code : Code) :
    (view code).countP (Stmt.is form) = (Code.parts code).countP (Stmt.is form) := by
  rcases List.mem_cons.mp hview with rfl | hview
  · exact Code.countP_flatten h code
  · rw [List.mem_singleton.mp hview]

/-! ## Recovering -/

/-- What recovering keeps of code, and what its report says went and came. -/
structure Recover.Conserves (ip : Reg) (code out : Code) (report : Report) : Prop where
  /-- Assignments, updates of registers other than the pointer, and stops, in their order. -/
  lasting : (Code.flatten out).filter (Stmt.lasts ip) = (Code.flatten code).filter (Stmt.lasts ip)
  compares : ∀ view ∈ [Code.flatten, Code.parts],
    (view out).countP (Stmt.is .compare) + report.ifElses = (view code).countP (Stmt.is .compare)
  skips : ∀ view ∈ [Code.flatten, Code.parts],
    (view out).countP (Stmt.updates ip) + report.ifElses = (view code).countP (Stmt.updates ip)
  jumps : ∀ view ∈ [Code.flatten, Code.parts],
    (view out).countP (Stmt.is .goto) + report.ifElses = (view code).countP (Stmt.is .goto)
  branches : ∀ view ∈ [Code.flatten, Code.parts],
    (view out).countP (Stmt.is .branch) + report.singleIfs + report.doWhiles =
      (view code).countP (Stmt.is .branch) + report.ifElses
  ifs : (Code.parts out).countP (Stmt.is .ifThen) =
    (Code.parts code).countP (Stmt.is .ifThen) + report.singleIfs
  counted : (Code.parts out).countP (Stmt.is .forUntil) =
    (Code.parts code).countP (Stmt.is .forUntil) + report.forLoops
  /-- A counting loop was a loop before. -/
  loops : (Code.parts out).countP (Stmt.is .doUntil) + report.forLoops =
    (Code.parts code).countP (Stmt.is .doUntil) + report.doWhiles

/-- What lasts has no targets, so it is not renumbered, and the patterns do not change it. -/
theorem Fold.filter_lasts_apply {ip : Reg} {code : Code} {p : Pattern} {f : Fold}
    (hf : p.find? ip code = some f) :
    (Code.flatten (f.apply code)).filter (Stmt.lasts ip) =
      (Code.flatten code).filter (Stmt.lasts ip) := by
  rw [Code.flatten_eq_flatMap, f.flatMap_apply Stmt.flatten_mapTargets, Stmt.filter_lasts_map,
    Code.flatten_eq_flatMap, f.flatMap_eq Stmt.flatten code]
  simp only [List.filter_append, (Pattern.turns_of_find? hf).filter_lasts, Code.flatten_eq_flatMap]

theorem Recover.Leads.filter_lasts {ip : Reg} {code out : Code} {ps : List Pattern}
    (h : Leads ip code ps out) :
    (Code.flatten out).filter (Stmt.lasts ip) = (Code.flatten code).filter (Stmt.lasts ip) := by
  induction h with
  | refl code => rfl
  | fold hstep _ ih =>
    obtain ⟨f, hf, rfl⟩ := Option.map_eq_some_iff.mp (foldFirst?_of_step? hstep)
    rw [ih, Fold.filter_lasts_apply hf]

namespace Code

/-- **Recovering loses, doubles and reorders nothing.** -/
theorem recover_conserves (ip : Reg) (code : Code) :
    Recover.Conserves ip code (Code.recover ip code) (Code.recoverReport ip code) := by
  have hforms (form : Stmt.Form) := (balanced_parts ip form).recover code
  simp only [Report.weigh, Pattern.taken, Pattern.given] at hforms
  refine
    { lasting := (Recover.leads_recover ip code).filter_lasts
      compares := fun view hview ↦ ?_
      skips := fun view hview ↦ ?_
      jumps := fun view hview ↦ ?_
      branches := fun view hview ↦ ?_
      ifs := by simpa using hforms .ifThen
      counted := by simpa using hforms .forUntil
      loops := by simpa using hforms .doUntil }
  · rw [countP_view (by decide) hview, countP_view (by decide) hview]
    simpa using hforms .compare
  · rcases List.mem_cons.mp hview with rfl | hview
    · simpa [Report.weigh] using (balanced_flatten_updates ip).recover code
    · rw [List.mem_singleton.mp hview]
      simpa [Report.weigh] using (balanced_parts_updates ip).recover code
  · rw [countP_view (by decide) hview, countP_view (by decide) hview]
    simpa using hforms .goto
  · rw [countP_view (by decide) hview, countP_view (by decide) hview]
    simpa [Nat.add_assoc] using hforms .branch

/-- Two branches make an `if` and a loop, and the loop becomes a counting one. -/
example :
    let code : Code := [.assign 1 (.lit 0), .branch ⟨.gt, .reg 1, .reg 2⟩ 2 3, .halt,
      .update .add 1 (.lit 1), .branch ⟨.gt, .reg 1, .lit 2⟩ 5 1]
    Code.recover 5 code = [.forUntil 1 (.lit 0) ⟨.gt, .reg 1, .lit 2⟩
        [.ifThen ⟨.gt, .reg 1, .reg 2⟩ [.halt]]] ∧
      Code.recoverReport 5 code =
        { ifElses := 0, singleIfs := 1, forLoops := 1, doWhiles := 1, passes := 4 } := by
  cbv

end Code

end Unjump
