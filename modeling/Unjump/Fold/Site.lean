import Unjump.Code.Stmt
import Unjump.Fold.Pattern

/-!
# Folds

A fold puts one statement in the place of a stretch of lines: `removed` lines after line `start`
go, and the statement at `start` becomes another one. Every target past `start` then moves up by
the number of lines that went.

## When a fold is refused

A line that goes must not be the target of a transfer that stays, since no line is left for it to
name. `Pattern.find?` looks only for folds for which this is so: it goes through the lines from the
top, and a stretch that has the shape of the pattern but is entered from outside is passed over.

```text
if-else fusion   L:   r = cond            L: if cond goto L+3 else goto G
                 L+1: ip += r       =>
                 L+2: goto G

single-if        L:   if c goto L+1 else goto L+2   =>   if c then { line L+1 }
                 L+1: ..

for-loop         L:   v = init                      =>   for (v = init; until c) { .. }
                 L+1: do { ..; v += 1 } until c

do-while         M:   ..                            =>   do { lines M to L-1 } until c
                 L:   if c goto L+1 else goto M
```
-/

namespace Unjump

/-- A stretch of lines and the statement to put in its place. -/
structure Fold where
  /-- The line that gets the new statement. -/
  start : Nat
  /-- The number of lines after it that go. -/
  removed : Nat
  /-- The new statement. -/
  stmt : Stmt

namespace Fold

/-- The statements that a fold leaves, the new one among them, before any target is moved. -/
def surviving (f : Fold) (code : Code) : Code :=
  code.take f.start ++ f.stmt :: code.drop (f.start + f.removed + 1)

/-- The code with the stretch replaced and all targets moved along. -/
def apply (f : Fold) (code : Code) : Code :=
  Code.shiftTargets f.start (-f.removed) (f.surviving code)

/-- Where a line goes. -/
def renumber (f : Fold) (t : Nat) : Nat := if f.start < t then t - f.removed else t

/-- Lines only go, so moving targets up does not meet the bounds of a shift. -/
theorem apply_eq_mapTargets (f : Fold) (code : Code) :
    f.apply code = Code.mapTargets f.renumber (f.surviving code) := by
  have hshift (t : Nat) : Code.shift (-f.removed) t = t - f.removed := by
    rw [Code.shift, if_pos (by omega), Int.natAbs_neg, Int.natAbs_natCast]
  simp only [apply, Code.shiftTargets, hshift]
  rfl

/-- The stretch lies within the code, and some line of it goes. -/
def Fits (f : Fold) (code : Code) : Prop := 0 < f.removed ∧ f.start + f.removed < code.length

theorem length_apply {f : Fold} {code : Code} (h : f.Fits code) :
    (f.apply code).length + f.removed = code.length := by
  obtain ⟨hpos, hlt⟩ := h
  rw [apply_eq_mapTargets, Code.length_mapTargets, surviving]
  simp only [List.length_append, List.length_take, List.length_cons, List.length_drop]
  omega

end Fold

namespace Pattern

/-! ## The shapes

Each function is given the whole code, a line, and the code from that line on. -/

/-- Whether a statement counts `var` up by one. -/
def countsUp (var : Reg) : Stmt → Bool
  | .update .add dest (.lit w) => dest == var && w == 1
  | _ => false

/-- A comparison, a skip by its flag and a jump, with no target on the last two. -/
def ifElseAt (ip : Reg) (code : Code) (line : Nat) : Code → Option Fold
  | .compare cond dest :: .update .add pointer (.reg flag) :: .goto target :: _ =>
    if pointer == ip && flag == dest &&
        !(Code.targets code).any fun t ↦ t == line + 1 || t == line + 2 then
      some ⟨line, 2, .branch cond (line + 3) target⟩
    else none
  | _ => none

/-- A branch around one statement that is no skip and that no other statement jumps to. -/
def singleIfAt (ip : Reg) (code : Code) (line : Nat) : Code → Option Fold
  | .branch cond ifTrue ifFalse :: s :: _ =>
    if ifTrue == line + 1 && ifFalse == line + 2 && !s.writesPointer ip &&
        !(Code.targets (code.eraseIdx line)).any fun t ↦ t == line + 1 then
      some ⟨line, 1, .ifThen cond [s]⟩
    else none
  | _ => none

/-- An assignment and a loop that ends by counting its variable up, with no transfer in the loop
and no target on it. -/
def forLoopAt (ip : Reg) (code : Code) (line : Nat) : Code → Option Fold
  | .assign var init :: .doUntil cond body :: _ =>
    if body.getLast?.any (countsUp var) && !Code.transfers ip body &&
        !(Code.targets code).any fun t ↦ t == line + 1 then
      some ⟨line, 1, .forUntil var init cond body.dropLast⟩
    else none
  | _ => none

/-- A branch back over lines without transfers, none of which is the target of another
statement except the first. -/
def doWhileAt (ip : Reg) (code : Code) (line : Nat) : Code → Option Fold
  | .branch cond ifTrue head :: _ =>
    let body := (code.drop head).take (line - head)
    if ifTrue == line + 1 && head < line && !Code.transfers ip body &&
        !(Code.targets (code.eraseIdx line)).any fun t ↦ head < t && t ≤ line then
      some ⟨head, line - head, .doUntil cond body⟩
    else none
  | _ => none

/-- The fold of a pattern at a line, if its shape is found there. -/
def foldAt? (ip : Reg) (code : Code) : Pattern → Nat → Code → Option Fold
  | ifElse => ifElseAt ip code
  | singleIf => singleIfAt ip code
  | forLoop => forLoopAt ip code
  | doWhile => doWhileAt ip code

/-! ## The search -/

/-- The first fold that `at?` finds in some code whose first line has the number `line`. -/
def firstFrom (at? : Nat → Code → Option Fold) (line : Nat) : Code → Option Fold
  | [] => none
  | s :: rest => (at? line (s :: rest)).or (firstFrom at? (line + 1) rest)

/-- The earliest fold of a pattern. -/
def find? (ip : Reg) (code : Code) (p : Pattern) : Option Fold :=
  firstFrom (p.foldAt? ip code) 0 code

/-- The code after the earliest fold of a pattern, if there is one. -/
def foldFirst? (ip : Reg) (code : Code) (p : Pattern) : Option Code :=
  (p.find? ip code).map fun f ↦ f.apply code

/-- Folding in place: whether there was something to fold, and the code after it. -/
def foldInPlace (ip : Reg) (p : Pattern) (code : Code) : Bool × Code :=
  match p.foldFirst? ip code with
  | some code' => (true, code')
  | none => (false, code)

/-! ## What a search finds lies within the code -/

theorem exists_of_firstFrom {at? : Nat → Code → Option Fold} {line : Nat} {code : Code} {f : Fold}
    (h : firstFrom at? line code = some f) :
    ∃ k, k < code.length ∧ at? (line + k) (code.drop k) = some f := by
  induction code generalizing line with
  | nil => simp [firstFrom] at h
  | cons s rest ih =>
    rw [firstFrom] at h
    rcases Option.or_eq_some_iff.mp h with h | ⟨-, h⟩
    · exact ⟨0, by simp, by simpa using h⟩
    · obtain ⟨k, hk, hf⟩ := ih h
      refine ⟨k + 1, by simpa using hk, ?_⟩
      rw [List.drop_succ_cons, ← hf]
      congr 1
      omega

/-- A fold that is found at a line fits the code. -/
theorem fits_of_foldAt? {ip : Reg} {code : Code} {p : Pattern} {line : Nat} {f : Fold}
    (h : p.foldAt? ip code line (code.drop line) = some f) : f.Fits code := by
  have len := List.length_drop (i := line) (l := code)
  cases p with
  | ifElse =>
    simp only [foldAt?, ifElseAt] at h
    split at h
    · next hdrop =>
      split at h
      · cases h
        rw [hdrop] at len
        simp only [List.length_cons] at len
        exact ⟨by simp, by simp only; omega⟩
      · cases h
    · cases h
  | singleIf =>
    simp only [foldAt?, singleIfAt] at h
    split at h
    · next hdrop =>
      split at h
      · cases h
        rw [hdrop] at len
        simp only [List.length_cons] at len
        exact ⟨by simp, by simp only; omega⟩
      · cases h
    · cases h
  | forLoop =>
    simp only [foldAt?, forLoopAt] at h
    split at h
    · next hdrop =>
      split at h
      · cases h
        rw [hdrop] at len
        simp only [List.length_cons] at len
        exact ⟨by simp, by simp only; omega⟩
      · cases h
    · cases h
  | doWhile =>
    simp only [foldAt?, doWhileAt] at h
    split at h
    · next hdrop =>
      split at h
      · next hguard =>
        cases h
        rw [hdrop] at len
        simp only [List.length_cons] at len
        simp only [Bool.and_eq_true, decide_eq_true_eq] at hguard
        obtain ⟨⟨⟨-, hhead⟩, -⟩, -⟩ := hguard
        exact ⟨by simp only; omega, by simp only; omega⟩
      · cases h
    · cases h

/-- **What is found fits the code.** -/
theorem fits_of_find? {ip : Reg} {code : Code} {p : Pattern} {f : Fold}
    (h : p.find? ip code = some f) : f.Fits code := by
  obtain ⟨k, -, hk⟩ := exists_of_firstFrom h
  rw [Nat.zero_add] at hk
  exact fits_of_foldAt? hk

theorem length_lt_of_foldFirst? {ip : Reg} {code code' : Code} {p : Pattern}
    (h : p.foldFirst? ip code = some code') : code'.length < code.length := by
  obtain ⟨f, hf, rfl⟩ := Option.map_eq_some_iff.mp h
  have hfits := fits_of_find? hf
  have hlen := Fold.length_apply hfits
  have hpos := hfits.1
  omega

end Pattern

end Unjump
