import Unjump.Code.Expr
import Unjump.Proofs.PrintedListings

/-!
# Texts that show where they end

Text can be read back only if it is clear where each of its parts ends. A way of printing is
*delimited* (`Text.Delimited`) if what was printed can be cut off from any text behind it that does
not go on with certain characters, and is known once it is cut off. Numbers and registers are
delimited by whatever is no letter, digit or sign.

Operands are delimited by the same characters, since operations among them stand in parentheses. A
whole expression may be an operation without parentheses, so it must not be followed by a blank
either (`Expr.delimited_text`). Whether an expression is a single operand is seen from what comes
behind that operand: behind the left operand of an operation comes a blank.
-/

namespace Unjump

namespace Text

variable {α : Type} {p : Char → Bool} {u v : List Char}

/-- The text does not start with a character of the class. -/
def Stops (p : Char → Bool) (cs : List Char) : Prop := ∀ c ∈ cs.head?, p c = false

theorem stops_nil : Stops p [] := nofun

theorem stops_cons {c : Char} {cs : List Char} (h : p c = false) : Stops p (c :: cs) := by
  intro d hd
  obtain rfl := Option.some.inj hd
  exact h

theorem Stops.mono {q : Char → Bool} (h : Stops q u) (hpq : ∀ c, p c = true → q c = true) :
    Stops p u := by
  intro c hc
  rw [Bool.eq_false_iff]
  exact fun hp ↦ Bool.eq_false_iff.mp (h c hc) (hpq c hp)

/-- What was printed can be cut off from a text behind it that does not go on with a character of
the class, and is then known. -/
def Delimited (p : Char → Bool) (print : α → List Char) : Prop :=
  ∀ ⦃a b : α⦄ ⦃u v : List Char⦄, Stops p u → Stops p v → print a ++ u = print b ++ v →
    a = b ∧ u = v

theorem Delimited.injective {print : α → List Char} (h : Delimited p print) :
    Function.Injective print :=
  fun _ _ heq ↦ (h stops_nil stops_nil (congrArg (· ++ []) heq)).1

/-- The usual case: the same separator follows. -/
theorem Delimited.cut {print : α → List Char} (h : Delimited p print) {a b : α} {c : Char}
    (hc : p c = false) (heq : print a ++ c :: u = print b ++ c :: v) : a = b ∧ u = v := by
  obtain ⟨hab, huv⟩ := h (stops_cons hc) (stops_cons hc) heq
  exact ⟨hab, (List.cons.inj huv).2⟩

/-- A run of a class ends where the class does. -/
theorem Run.append_inj {w w' : List Char} (hw : Run p w) (hw' : Run p w') (hu : Stops p u)
    (hv : Stops p v) (h : w ++ u = w' ++ v) : w = w' ∧ u = v := by
  have cut {w u : List Char} (hw : Run p w) (hu : Stops p u) : (w ++ u).takeWhile p = w := by
    have hnil : u.takeWhile p = [] := by
      rcases u with _ | ⟨c, cs⟩
      · rfl
      · exact List.takeWhile_cons_of_neg (Bool.eq_false_iff.mp (hu c rfl))
    rw [List.takeWhile_append_of_pos hw.2, hnil, List.append_nil]
  have heq : w = w' := by rw [← cut hw hu, h, cut hw' hv]
  subst heq
  exact ⟨rfl, List.append_cancel_left h⟩

/-- A run does not start with a character of another class. -/
theorem Run.append_ne_cons {w cs : List Char} {c : Char} (hw : Run p w) (hc : p c = false) :
    w ++ u ≠ c :: cs := by
  obtain ⟨d, w, rfl⟩ := List.exists_cons_of_ne_nil hw.1
  intro h
  obtain ⟨rfl, -⟩ := List.cons.inj h
  exact Bool.eq_false_iff.mp hc (hw.2 d List.mem_cons_self)

/-- What is printed as a run is delimited by the end of its class. -/
theorem delimited_of_run {print : α → List Char} (hrun : ∀ a, Run p (print a))
    (hinj : Function.Injective print) : Delimited p print := by
  intro a b u v hu hv h
  obtain ⟨heq, huv⟩ := (hrun a).append_inj (hrun b) hu hv h
  exact ⟨hinj heq, huv⟩

/-! ## Numbers and registers -/

/-- The characters of numbers and registers. -/
def isAtomic (c : Char) : Bool := c.isAlphanum || c == '-'

theorem Run.isAtomic_of_isDigit {w : List Char} (h : Run Char.isDigit w) : Run isAtomic w :=
  h.mono fun c hc ↦ by simp [isAtomic, Char.isAlphanum, hc]

theorem Run.isAtomic_cons {w : List Char} (h : Run isAtomic w) {c : Char}
    (hc : isAtomic c = true) : Run isAtomic (c :: w) :=
  ⟨List.cons_ne_nil _ _, List.forall_mem_cons.mpr ⟨hc, h.2⟩⟩

theorem delimited_repr : Delimited isAtomic fun n : Nat ↦ n.repr.toList := by
  refine delimited_of_run (fun n ↦ (run_repr n).isAtomic_of_isDigit) ?_
  -- the digits are read back
  refine Function.LeftInverse.injective (g := fun cs ↦ Nat.ofDigitChars 10 cs 0) fun n ↦ ?_
  simp only [Nat.toList_repr]
  exact Nat.ofDigitChars_toDigits (by decide) (by decide)

end Text

open Text

theorem Reg.toList_name (r : Reg) : r.name.toList = 'r' :: r.val.repr.toList := by
  simp [Reg.name]

theorem Reg.isAtomic_name (r : Reg) : Run isAtomic r.name.toList := by
  rw [toList_name]
  exact (run_repr _).isAtomic_of_isDigit.isAtomic_cons rfl

theorem Reg.delimited_name : Delimited isAtomic fun r : Reg ↦ r.name.toList := by
  refine delimited_of_run isAtomic_name fun r s h ↦ ?_
  simp only [toList_name, List.cons.injEq, true_and] at h
  exact Fin.ext (delimited_repr.injective h)

theorem Word.isAtomic_text (w : Word) : Run isAtomic w.text.toList := by
  by_cases h : 0 ≤ w.toInt
  · rw [text_of_nonneg h]
    exact (run_repr _).isAtomic_of_isDigit
  · rw [text_of_neg (Int.not_le.mp h)]
    exact (run_repr _).isAtomic_of_isDigit.isAtomic_cons rfl

/-- A word is printed with a sign exactly if it is negative. -/
theorem Word.head?_text_eq_iff (w : Word) : w.text.toList.head? = some '-' ↔ w.toInt < 0 := by
  constructor
  · intro hsign
    by_contra h
    rw [text_of_nonneg (Int.not_lt.mp h)] at hsign
    exact absurd ((run_repr _).2 _ (List.mem_of_head? hsign)) (by decide)
  · intro h
    rw [text_of_neg h]
    rfl

theorem Word.delimited_text : Delimited isAtomic fun w : Word ↦ w.text.toList := by
  refine delimited_of_run isAtomic_text fun v w h ↦ Int64.toInt_inj.mp ?_
  have hsign : v.toInt < 0 ↔ w.toInt < 0 := by
    rw [← head?_text_eq_iff, ← head?_text_eq_iff]
    exact Eq.congr_left (congrArg List.head? h)
  by_cases hv : v.toInt < 0
  · have hw := hsign.mp hv
    simp only [text_of_neg hv, text_of_neg hw, List.cons.injEq, true_and] at h
    have hnat := delimited_repr.injective h
    omega
  · have hw := mt hsign.mpr hv
    simp only [text_of_nonneg (Int.not_lt.mp hv), text_of_nonneg (Int.not_lt.mp hw)] at h
    have hnat := delimited_repr.injective h
    omega

/-- No word is printed like a register. -/
theorem Word.text_ne_name (w : Word) (r : Reg) : w.text.toList ≠ r.name.toList := by
  rw [Reg.toList_name]
  intro h
  have hr : 'r' ∈ w.text.toList.head? := by rw [h]; rfl
  by_cases hneg : w.toInt < 0
  · rw [(head?_text_eq_iff w).mpr hneg] at hr
    exact absurd hr (by decide)
  · rw [text_of_nonneg (Int.not_lt.mp hneg)] at hr
    exact absurd ((run_repr _).2 _ (List.mem_of_head? hr)) (by decide)

/-! ## Expressions -/

theorem BinOp.symbol_append_inj {op op' : BinOp} {u v : List Char}
    (h : op.symbol.toList ++ u = op'.symbol.toList ++ v) : op = op' ∧ u = v := by
  cases op <;> cases op' <;> simp_all [symbol]

namespace Expr

/-- The text of an expression as an operand. -/
def operand (e : Expr) : List Char := (e.enclose e.text).toList

theorem operand_of_isBin {e : Expr} (h : e.isBin = true) :
    e.operand = '(' :: (e.text.toList ++ [')']) := by
  simp [operand, enclose, h]

theorem operand_of_not_isBin {e : Expr} (h : e.isBin = false) : e.operand = e.text.toList := by
  simp [operand, enclose, h]

theorem toList_text_bin (op : BinOp) (l r : Expr) :
    (bin op l r).text.toList = l.operand ++ ' ' :: (op.symbol.toList ++ ' ' :: r.operand) := by
  simp [text, operand]

/-- An operand that is no operation is a register or a literal. -/
theorem isAtomic_operand {e : Expr} (h : e.isBin = false) : Run isAtomic e.operand := by
  rw [operand_of_not_isBin h]
  cases e with
  | reg r => exact r.isAtomic_name
  | lit w => exact w.isAtomic_text
  | bin => contradiction

theorem operand_inj_of_not_isBin {e e' : Expr} (he : e.isBin = false) (he' : e'.isBin = false)
    (h : e.operand = e'.operand) : e = e' := by
  rw [operand_of_not_isBin he, operand_of_not_isBin he'] at h
  cases e with
  | reg r =>
    cases e' with
    | reg r' => rw [Reg.delimited_name.injective h]
    | lit w => exact absurd h.symm (w.text_ne_name r)
    | bin => contradiction
  | lit w =>
    cases e' with
    | reg r => exact absurd h (w.text_ne_name r)
    | lit w' => rw [Word.delimited_text.injective h]
    | bin => contradiction
  | bin => contradiction

/-- What must not come behind an expression. -/
def goesOn (c : Char) : Bool := isAtomic c || c == ' '

/-- The text of this expression is delimited. -/
def TextDelimited (e : Expr) : Prop :=
  ∀ ⦃e' : Expr⦄ ⦃u v : List Char⦄, Stops goesOn u → Stops goesOn v →
    e.text.toList ++ u = e'.text.toList ++ v → e = e' ∧ u = v

/-- Parentheses, if there are any, close behind the text of the operation. -/
theorem operand_append_inj {e e' : Expr} {u v : List Char} (he : e.isBin = true → e.TextDelimited)
    (hu : Stops isAtomic u) (hv : Stops isAtomic v) (h : e.operand ++ u = e'.operand ++ v) :
    e = e' ∧ u = v := by
  cases hbin : e.isBin with
  | true =>
    cases hbin' : e'.isBin with
    | true =>
      simp only [operand_of_isBin hbin, operand_of_isBin hbin', List.cons_append,
        List.append_assoc, List.nil_append, List.cons.injEq, true_and] at h
      obtain ⟨rfl, htail⟩ := he hbin (stops_cons rfl) (stops_cons rfl) h
      exact ⟨rfl, (List.cons.inj htail).2⟩
    | false =>
      rw [operand_of_isBin hbin] at h
      exact absurd h.symm ((isAtomic_operand hbin').append_ne_cons rfl)
  | false =>
    cases hbin' : e'.isBin with
    | true =>
      rw [operand_of_isBin hbin'] at h
      exact absurd h ((isAtomic_operand hbin).append_ne_cons rfl)
    | false =>
      obtain ⟨heq, huv⟩ := (isAtomic_operand hbin).append_inj (isAtomic_operand hbin') hu hv h
      exact ⟨operand_inj_of_not_isBin hbin hbin' heq, huv⟩

theorem stops_isAtomic {u : List Char} (h : Stops goesOn u) : Stops isAtomic u :=
  h.mono fun c hc ↦ by rw [goesOn, hc, Bool.true_or]

/-- Behind the left operand of an operation comes a blank. -/
theorem text_append_ne_bin {e l r : Expr} {op : BinOp} {u v : List Char} (he : e.isBin = false)
    (hu : Stops goesOn u) : e.text.toList ++ u ≠ (bin op l r).text.toList ++ v := by
  intro h
  rw [← operand_of_not_isBin he, toList_text_bin, List.append_assoc, List.cons_append] at h
  obtain ⟨-, rfl⟩ := operand_append_inj (fun hbin ↦ absurd (he.symm.trans hbin) Bool.false_ne_true)
    (stops_isAtomic hu) (stops_cons rfl) h
  exact absurd (hu ' ' rfl) (by decide)

theorem textDelimited_of_not_isBin {e : Expr} (he : e.isBin = false) : e.TextDelimited := by
  intro e' u v hu hv h
  cases e' with
  | bin op l r => exact absurd h (text_append_ne_bin he hu)
  | reg | lit =>
    exact operand_append_inj (fun hbin ↦ absurd (he.symm.trans hbin) Bool.false_ne_true)
      (stops_isAtomic hu) (stops_isAtomic hv) (by rwa [operand_of_not_isBin he])

theorem textDelimited (e : Expr) : e.TextDelimited := by
  induction e with
  | reg r => exact textDelimited_of_not_isBin rfl
  | lit w => exact textDelimited_of_not_isBin rfl
  | bin op l r ihl ihr =>
    intro e' u v hu hv h
    cases e' with
    | reg r' => exact absurd h.symm (text_append_ne_bin rfl hv)
    | lit w' => exact absurd h.symm (text_append_ne_bin rfl hv)
    | bin op' l' r' =>
      simp only [toList_text_bin, List.append_assoc, List.cons_append] at h
      obtain ⟨rfl, hop⟩ := operand_append_inj (fun _ ↦ ihl) (stops_cons rfl) (stops_cons rfl) h
      obtain ⟨rfl, hright⟩ := BinOp.symbol_append_inj (List.cons.inj hop).2
      obtain ⟨rfl, huv⟩ := operand_append_inj (fun _ ↦ ihr) (stops_isAtomic hu)
        (stops_isAtomic hv) (List.cons.inj hright).2
      exact ⟨rfl, huv⟩

/-- **A printed expression shows where it ends**, unless it is followed by a blank or by what could
belong to its last operand. -/
theorem delimited_text : Delimited goesOn fun e : Expr ↦ e.text.toList :=
  fun e _ _ _ ↦ @textDelimited e _ _ _

theorem delimited_operand : Delimited isAtomic operand :=
  fun e _ _ _ ↦ operand_append_inj fun _ ↦ e.textDelimited

end Expr

namespace Cond

theorem toExpr_injective : Function.Injective toExpr := by
  intro c d h
  obtain ⟨hop, hlhs, hrhs⟩ := Expr.bin.inj h
  exact (mk.injEq ..).mpr ⟨hop, hlhs, hrhs⟩

theorem text_injective : Function.Injective text :=
  fun _ _ h ↦ toExpr_injective (Expr.delimited_text.injective (congrArg String.toList h))

/-- A condition stands in parentheses, as an operand does. -/
theorem operand_toExpr (c : Cond) : c.toExpr.operand = '(' :: (c.text.toList ++ [')']) :=
  Expr.operand_of_isBin rfl

theorem delimited_operand : Delimited isAtomic fun c : Cond ↦ c.toExpr.operand := by
  intro c d u v hu hv h
  obtain ⟨heq, huv⟩ := Expr.delimited_operand hu hv h
  exact ⟨toExpr_injective heq, huv⟩

end Cond

end Unjump
