/-!
# Registers

The machine has six registers. Each holds a **word**, a signed 64-bit integer whose arithmetic
wraps. A register file is the content of all six, read and changed one cell at a time; the two
facts everything later rests on are that a changed cell holds what was put there and that every
other cell keeps what it held.

Registers are named in two ways. A `Reg` is known to be one of the six. An *operand* is a bare
word that claims to be one, and `Reg.ofOperand?` decides the claim.
-/

namespace Unjump

/-! ## Words -/

/-- A signed 64-bit machine word; sums and products wrap. -/
abbrev Word := Int64

/-- The word in decimal, with a minus sign when it is negative. -/
def Word.text (w : Word) : String := w.toInt.repr

/-- The word as a line number: a negative word numbers no line. -/
def Word.line? (w : Word) : Option Nat :=
  if 0 ≤ w.toInt then some w.toInt.toNat else none

/-- The sum of two words, unless it leaves the range of words. -/
def Word.addExact? (v w : Word) : Option Word :=
  if (v + w).toInt = v.toInt + w.toInt then some (v + w) else none

/-! ## Register names -/

/-- One of the six registers. -/
abbrev Reg := Fin 6

/-- Registers are written as numerals. -/
instance Reg.neZero : @NeZero Nat Zero.ofOfNat0 6 := ⟨by decide⟩

def Reg.count : Nat := 6

/-- Registers are written `r0` to `r5`. -/
def Reg.name (r : Reg) : String := "r" ++ r.val.repr

/-- The register with this number, if there is one. -/
def Reg.ofNat? (n : Nat) : Option Reg :=
  if h : n < 6 then some ⟨n, h⟩ else none

/-- The register that an operand names, if it names one. -/
def Reg.ofOperand? (w : Word) : Option Reg :=
  w.line?.bind Reg.ofNat?

theorem Reg.ofNat?_val (r : Reg) : Reg.ofNat? r.val = some r := by
  simp [Reg.ofNat?]

/-- An operand names a register exactly when it lies in `[0, 6)`. -/
theorem Reg.ofOperand?_eq_some_iff {w : Word} {r : Reg} :
    Reg.ofOperand? w = some r ↔ w.toInt = r.val := by
  unfold Reg.ofOperand? Word.line? Reg.ofNat?
  constructor
  · intro h
    split at h
    · simp only [Option.bind_some, Option.dite_none_right_eq_some, Option.some.injEq] at h
      obtain ⟨hlt, rfl⟩ := h
      simp only
      omega
    · simp at h
  · intro h
    have hr := r.isLt
    rw [if_pos (by omega)]
    simp only [Option.bind_some, h, Int.toNat_natCast]
    simp

theorem Reg.ofOperand?_eq_none_iff {w : Word} :
    Reg.ofOperand? w = none ↔ w.toInt < 0 ∨ 6 ≤ w.toInt := by
  unfold Reg.ofOperand? Word.line? Reg.ofNat?
  split
  · simp only [Option.bind_some, dite_eq_right_iff, reduceCtorEq, imp_false]
    omega
  · simp only [Option.bind_none, true_iff]
    omega

/-! ## The register file -/

/-- The content of the six registers. -/
@[ext]
structure Registers where
  cells : Vector Word 6
deriving DecidableEq

namespace Registers

def get (r : Registers) (i : Reg) : Word := r.cells[i]

/-- The content of the register that an operand names. -/
def read? (r : Registers) (operand : Word) : Option Word := (Reg.ofOperand? operand).map r.get

def set (r : Registers) (i : Reg) (w : Word) : Registers := ⟨r.cells.set i w⟩

/-- The six words in register order. -/
def toList (r : Registers) : List Word := r.cells.toList

/-- A register file from exactly six words. -/
def ofList? (ws : List Word) : Option Registers :=
  if h : ws.length = 6 then some ⟨⟨ws.toArray, by simpa using h⟩⟩ else none

theorem get_set (r : Registers) (i j : Reg) (w : Word) :
    (r.set i w).get j = if i = j then w else r.get j := by
  simp only [get, set, Fin.getElem_fin, Vector.getElem_set, Fin.ext_iff]

@[simp]
theorem get_set_self (r : Registers) (i : Reg) (w : Word) : (r.set i w).get i = w := by
  simp [get_set]

@[simp]
theorem get_set_of_ne (r : Registers) {i j : Reg} (h : i ≠ j) (w : Word) :
    (r.set i w).get j = r.get j := by
  simp [get_set, h]

/-- A register file is known by its six cells. -/
theorem ext_get {r s : Registers} (h : ∀ i, r.get i = s.get i) : r = s := by
  ext i hi
  exact h ⟨i, hi⟩

@[simp]
theorem set_get_self (r : Registers) (i : Reg) : r.set i (r.get i) = r := by
  refine ext_get fun j ↦ ?_
  rw [get_set]
  split
  · next h => rw [h]
  · rfl

@[simp]
theorem set_set_self (r : Registers) (i : Reg) (v w : Word) : (r.set i v).set i w = r.set i w := by
  refine ext_get fun j ↦ ?_
  simp only [get_set]
  split <;> rfl

@[simp]
theorem ofList?_toList (r : Registers) : ofList? r.toList = some r := by
  unfold ofList? toList
  rw [dif_pos (by simp)]
  refine congrArg some (ext_get fun i ↦ ?_)
  simp [get]

end Registers

end Unjump
