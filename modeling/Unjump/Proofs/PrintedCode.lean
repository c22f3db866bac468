import Unjump.Proofs.Delimited
import Unjump.Pseudocode

/-!
# Pseudocode can be read back

Two pairs of a pointer register and some code never have the same pseudocode
(`Pseudocode.emit_injective`), as long as lines are indented with spaces, if at all.

Margins carry no information: no line of a statement starts with a blank, a digit or a colon, so
line numbers and indentation can be taken off a line (`Text.bare`) without a look at the statement.
What is left does not depend on the layout (`Pseudocode.map_bare_lines`).

The first line of a statement tells its form. A letter separates most forms; the three that store
into a register, and the two that start with `if`, are told apart further on. It also tells where
the statement ends: flat statements have no other line, and the others go on until a line starts
with a brace that closes them. So code is read back by recursion on its bodies
(`Code.lines_append_inj`).
-/

namespace Unjump

open Text

/-! ## Lines without margins -/

namespace Text

/-- The characters of margins. No statement starts with one. -/
def isMargin (c : Char) : Bool := c == ' ' || c.isDigit || c == ':'

/-- Nothing but spaces, if anything. -/
def Spaces (s : String) : Prop := ∀ c ∈ s.toList, c = ' '

instance (s : String) : Decidable (Spaces s) :=
  decidable_of_iff (s.toList.all (· == ' ') = true) (by simp [Spaces])

/-- A line without its margin. -/
def bare (line : String) : String := String.ofList (line.toList.dropWhile isMargin)

theorem bare_append {margin : String} (h : ∀ c ∈ margin.toList, isMargin c = true) (line : String) :
    bare (margin ++ line) = bare line := by
  rw [bare, String.toList_append, List.dropWhile_append_of_pos h, bare]

theorem bare_of_stops {line : String} (h : Stops isMargin line.toList) : bare line = line := by
  have hdrop : line.toList.dropWhile isMargin = line.toList := by
    rcases hline : line.toList with _ | ⟨c, cs⟩
    · rfl
    · exact List.dropWhile_cons_of_neg (Bool.eq_false_iff.mp (h c (by rw [hline]; rfl)))
  rw [bare, hdrop, String.ofList_toList]

end Text

@[simp]
theorem Layout.pad_empty (depth : Nat) : Layout.pad "" depth = "" := by
  apply String.toList_injective
  simp [Layout.pad, String.toList_join]

section

variable {indent : String}

theorem Layout.isMargin_pad (h : Spaces indent) (depth : Nat) :
    ∀ c ∈ (Layout.pad indent depth).toList, isMargin c = true := by
  intro c hc
  simp only [Layout.pad, String.toList_join, List.mem_flatMap, List.mem_replicate] at hc
  obtain ⟨_, ⟨-, rfl⟩, hc⟩ := hc
  rw [h c hc]
  rfl

theorem Layout.bare_pad_append (h : Spaces indent) (depth : Nat) (line : String) :
    bare (Layout.pad indent depth ++ line) = bare line :=
  bare_append (Layout.isMargin_pad h depth) line

mutual

/-- Without margins, a statement looks the same with any indentation. -/
theorem Stmt.map_bare_lines (h : Spaces indent) (s : Stmt) (depth : Nat) :
    (s.lines indent depth).map bare = (s.lines "" depth).map bare := by
  cases s with
  | ifThen cond body | doUntil cond body | forUntil var init cond body =>
    have hbody := Code.map_bare_lines h body (depth + 1)
    simp [Stmt.lines, String.append_assoc, Layout.bare_pad_append h, hbody]
  | _ => simp [Stmt.lines, String.append_assoc, Layout.bare_pad_append h]

/-- Without margins, a body looks the same with any indentation. -/
theorem Code.map_bare_lines (h : Spaces indent) (code : List Stmt) (depth : Nat) :
    (Code.lines indent depth code).map bare = (Code.lines "" depth code).map bare := by
  cases code with
  | nil => simp [Code.lines]
  | cons s rest =>
    simp only [Code.lines, List.map_append]
    rw [Stmt.map_bare_lines h s, Code.map_bare_lines h rest]

end

end

/-! ## Clean lines -/

theorem Text.stops_cons_iff {p : Char → Bool} {c : Char} {cs : List Char} :
    Stops p (c :: cs) ↔ p c = false :=
  ⟨fun h ↦ h c rfl, stops_cons⟩

/-- The line has no margin and no newline. -/
def Text.Clean (line : String) : Prop := Stops isMargin line.toList ∧ '\n' ∉ line.toList

theorem Text.Run.newline_not_mem_of_isAtomic {w : List Char} (h : Run isAtomic w) : '\n' ∉ w :=
  fun hmem ↦ absurd (h.2 _ hmem) (by decide)

theorem Text.newline_not_mem_toDigits (n : Nat) : '\n' ∉ Nat.toDigits 10 n := by
  rw [← Nat.toList_repr]
  exact (run_repr n).isAtomic_of_isDigit.newline_not_mem_of_isAtomic

theorem BinOp.newline_not_mem_symbol (op : BinOp) : '\n' ∉ op.symbol.toList := by
  cases op <;> simp [symbol]

theorem Expr.newline_not_mem_text (e : Expr) : '\n' ∉ e.text.toList := by
  have enclosed {e : Expr} (he : '\n' ∉ e.text.toList) : '\n' ∉ e.operand := by
    cases hbin : e.isBin with
    | true => simp [operand_of_isBin hbin, he]
    | false => rwa [operand_of_not_isBin hbin]
  induction e with
  | reg r => exact r.isAtomic_name.newline_not_mem_of_isAtomic
  | lit w => exact w.isAtomic_text.newline_not_mem_of_isAtomic
  | bin op l r ihl ihr =>
    simp [toList_text_bin, enclosed ihl, enclosed ihr, op.newline_not_mem_symbol]

theorem Cond.newline_not_mem_text (c : Cond) : '\n' ∉ c.text.toList := c.toExpr.newline_not_mem_text

mutual

theorem Stmt.clean_lines (s : Stmt) (depth : Nat) : ∀ l ∈ s.lines "" depth, Clean l := by
  cases s with
  | ifThen cond body | doUntil cond body | forUntil var init cond body =>
    have hbody := Code.clean_lines body (depth + 1)
    rw [Stmt.lines]
    refine List.forall_mem_cons.mpr ⟨?_, List.forall_mem_append.mpr
      ⟨hbody, List.forall_mem_singleton.mpr ?_⟩⟩ <;>
    simp [Clean, stops_cons_iff, isMargin, Reg.toList_name, newline_not_mem_toDigits,
      Expr.newline_not_mem_text, Cond.newline_not_mem_text]
  | _ =>
    simp [Stmt.lines, Clean, stops_cons_iff, isMargin, Reg.toList_name, newline_not_mem_toDigits,
      BinOp.newline_not_mem_symbol, Expr.newline_not_mem_text, Cond.newline_not_mem_text]

theorem Code.clean_lines (code : List Stmt) (depth : Nat) :
    ∀ l ∈ Code.lines "" depth code, Clean l := by
  cases code with
  | nil => simp [Code.lines]
  | cons s rest =>
    simp only [Code.lines, List.mem_append]
    rintro l (hl | hl)
    · exact Stmt.clean_lines s depth l hl
    · exact Code.clean_lines rest depth l hl

end

/-! ## First lines -/

/-- The character that a statement starts with. -/
def Stmt.letter : Stmt → Char
  | .assign .. | .update .. | .compare .. => 'r'
  | .goto _ => 'g'
  | .branch .. | .ifThen .. => 'i'
  | .halt => 'e'
  | .doUntil .. => 'd'
  | .forUntil .. => 'f'

theorem Stmt.lines_eq_cons (s : Stmt) (depth : Nat) :
    ∃ line rest, s.lines "" depth = line :: rest ∧ line.toList.head? = some s.letter := by
  cases s <;> simp [Stmt.lines, Stmt.letter, Reg.toList_name]

namespace Stmt

def firstLine (s : Stmt) (depth : Nat) : List Char := ((s.lines "" depth).headD "").toList

theorem head?_firstLine (s : Stmt) (depth : Nat) : (s.firstLine depth).head? = some s.letter := by
  obtain ⟨line, rest, hlines, hletter⟩ := s.lines_eq_cons depth
  rw [firstLine, hlines, List.headD_cons, hletter]

/-- What a statement is known to be once its first line is that of the given one. -/
def OpensAs : Stmt → Stmt → Prop
  | ifThen cond _, s' => ∃ body, s' = ifThen cond body
  | doUntil _ _, s' => ∃ cond body, s' = doUntil cond body
  | forUntil var init cond _, s' => ∃ body, s' = forUntil var init cond body
  | s, s' => s' = s

theorem firstLine_assign (dest : Reg) (value : Expr) (depth : Nat) :
    (assign dest value).firstLine depth =
      dest.name.toList ++ ' ' :: '=' :: ' ' :: (value.text.toList ++ [';']) := by
  simp [firstLine, Stmt.lines]

theorem firstLine_update (op : BinOp) (dest : Reg) (value : Expr) (depth : Nat) :
    (update op dest value).firstLine depth = dest.name.toList ++
      ' ' :: (op.symbol.toList ++ '=' :: ' ' :: (value.text.toList ++ [';'])) := by
  simp [firstLine, Stmt.lines]

theorem firstLine_compare (cond : Cond) (dest : Reg) (depth : Nat) :
    (compare cond dest).firstLine depth = dest.name.toList ++
      ' ' :: '=' :: ' ' :: (cond.toExpr.operand ++ ' ' :: "? 1 : 0;".toList) := by
  simp [firstLine, Stmt.lines, Cond.operand_toExpr]

theorem firstLine_goto (target depth : Nat) :
    (goto target).firstLine depth = "goto ".toList ++ (target.repr.toList ++ [';']) := by
  simp [firstLine, Stmt.lines]

theorem firstLine_branch (cond : Cond) (ifTrue ifFalse depth : Nat) :
    (branch cond ifTrue ifFalse).firstLine depth =
      "if ".toList ++ (cond.toExpr.operand ++ ' ' :: ("goto ".toList ++ (ifTrue.repr.toList ++
        ';' :: (" else goto ".toList ++ (ifFalse.repr.toList ++ [';']))))) := by
  simp [firstLine, Stmt.lines, Cond.operand_toExpr]

theorem firstLine_ifThen (cond : Cond) (body : List Stmt) (depth : Nat) :
    (ifThen cond body).firstLine depth =
      "if ".toList ++ (cond.toExpr.operand ++ [' ', '\x7b']) := by
  simp [firstLine, Stmt.lines, Cond.operand_toExpr]

theorem firstLine_forUntil (var : Reg) (init : Expr) (cond : Cond) (body : List Stmt)
    (depth : Nat) :
    (forUntil var init cond body).firstLine depth =
      "for (".toList ++ (var.name.toList ++ ' ' :: ("= ".toList ++ (init.text.toList ++
        ';' :: (" !".toList ++ (cond.toExpr.operand ++ ';' :: ' ' :: (var.name.toList ++
          "++) \x7b".toList)))))) := by
  simp [firstLine, Stmt.lines, Cond.operand_toExpr]

/-- The sign of a compound assignment is not that of an assignment. -/
theorem symbol_append_ne (op : BinOp) (t t' : List Char) :
    op.symbol.toList ++ '=' :: t ≠ '=' :: ' ' :: t' := by
  cases op <;> simp [BinOp.symbol]

/-- A value is not taken for a comparison: behind its first operand there is no question mark. -/
theorem value_ne_compared (e : Expr) (c : Cond) :
    e.text.toList ++ [';'] ≠ c.toExpr.operand ++ ' ' :: "? 1 : 0;".toList := by
  intro h
  cases e with
  | bin op l r =>
    rw [Expr.toList_text_bin, List.append_assoc, List.cons_append] at h
    obtain ⟨-, ht⟩ := Expr.delimited_operand (stops_cons rfl) (stops_cons rfl) h
    cases op <;> simp [BinOp.symbol] at ht
  | _ =>
    rw [← Expr.operand_of_not_isBin rfl] at h
    obtain ⟨-, ht⟩ := Expr.delimited_operand (stops_cons rfl) (stops_cons rfl) h
    simp at ht

section

variable {d d' : Nat}

theorem firstLine_assign_ne_update {dest dest' : Reg} {value value' : Expr} {op : BinOp} :
    (assign dest value).firstLine d ≠ (update op dest' value').firstLine d' := by
  rw [firstLine_assign, firstLine_update]
  intro h
  exact symbol_append_ne op _ _ (Reg.delimited_name.cut rfl h).2.symm

theorem firstLine_compare_ne_update {cond : Cond} {dest dest' : Reg} {value : Expr} {op : BinOp} :
    (compare cond dest).firstLine d ≠ (update op dest' value).firstLine d' := by
  rw [firstLine_compare, firstLine_update]
  intro h
  exact symbol_append_ne op _ _ (Reg.delimited_name.cut rfl h).2.symm

theorem firstLine_assign_ne_compare {dest dest' : Reg} {value : Expr} {cond : Cond} :
    (assign dest value).firstLine d ≠ (compare cond dest').firstLine d' := by
  rw [firstLine_assign, firstLine_compare]
  intro h
  obtain ⟨-, ht⟩ := Reg.delimited_name.cut rfl h
  simp only [List.cons.injEq, true_and] at ht
  exact value_ne_compared value cond ht

theorem firstLine_branch_ne_ifThen {cond cond' : Cond} {ifTrue ifFalse : Nat} {body : List Stmt} :
    (branch cond ifTrue ifFalse).firstLine d ≠ (ifThen cond' body).firstLine d' := by
  rw [firstLine_branch, firstLine_ifThen]
  intro h
  obtain ⟨-, ht⟩ := Cond.delimited_operand.cut rfl (List.append_cancel_left h)
  simp at ht

end

/-- **The first line of a statement tells all of it but its body**, and but the condition of a loop
that ends with its condition. -/
theorem opensAs_of_firstLine {s s' : Stmt} {d d' : Nat} (h : s.firstLine d = s'.firstLine d') :
    s.OpensAs s' := by
  have hletter : s.letter = s'.letter := by
    rw [← Option.some.injEq, ← head?_firstLine s d, ← head?_firstLine s' d', h]
  -- the letters leave three statements that store, and two that start with `if`
  cases s with
  | assign dest value =>
    cases s' with
    | assign dest' value' =>
      simp only [firstLine_assign] at h
      obtain ⟨rfl, ht⟩ := Reg.delimited_name.cut rfl h
      simp only [List.cons.injEq, true_and] at ht
      obtain ⟨rfl, -⟩ := Expr.delimited_text.cut rfl ht
      rfl
    | update => exact absurd h firstLine_assign_ne_update
    | compare => exact absurd h firstLine_assign_ne_compare
    | _ => simp [letter] at hletter
  | update op dest value =>
    cases s' with
    | update op' dest' value' =>
      simp only [firstLine_update] at h
      obtain ⟨rfl, ht⟩ := Reg.delimited_name.cut rfl h
      obtain ⟨rfl, hvalue⟩ := BinOp.symbol_append_inj ht
      simp only [List.cons.injEq, true_and] at hvalue
      obtain ⟨rfl, -⟩ := Expr.delimited_text.cut rfl hvalue
      rfl
    | assign => exact absurd h.symm firstLine_assign_ne_update
    | compare => exact absurd h.symm firstLine_compare_ne_update
    | _ => simp [letter] at hletter
  | compare cond dest =>
    cases s' with
    | compare cond' dest' =>
      simp only [firstLine_compare] at h
      obtain ⟨rfl, ht⟩ := Reg.delimited_name.cut rfl h
      simp only [List.cons.injEq, true_and] at ht
      obtain ⟨rfl, -⟩ := Cond.delimited_operand.cut rfl ht
      rfl
    | assign => exact absurd h.symm firstLine_assign_ne_compare
    | update => exact absurd h firstLine_compare_ne_update
    | _ => simp [letter] at hletter
  | goto target =>
    cases s' with
    | goto target' =>
      simp only [firstLine_goto] at h
      obtain ⟨rfl, -⟩ := delimited_repr.cut rfl (List.append_cancel_left h)
      rfl
    | _ => simp [letter] at hletter
  | branch cond ifTrue ifFalse =>
    cases s' with
    | branch cond' ifTrue' ifFalse' =>
      simp only [firstLine_branch] at h
      obtain ⟨rfl, htrue⟩ := Cond.delimited_operand.cut rfl (List.append_cancel_left h)
      obtain ⟨rfl, hfalse⟩ := delimited_repr.cut rfl (List.append_cancel_left htrue)
      obtain ⟨rfl, -⟩ := delimited_repr.cut rfl (List.append_cancel_left hfalse)
      rfl
    | ifThen => exact absurd h firstLine_branch_ne_ifThen
    | _ => simp [letter] at hletter
  | halt =>
    cases s' with
    | halt => rfl
    | _ => simp [letter] at hletter
  | ifThen cond body =>
    cases s' with
    | ifThen cond' body' =>
      simp only [firstLine_ifThen] at h
      obtain ⟨rfl, -⟩ := Cond.delimited_operand.cut rfl (List.append_cancel_left h)
      exact ⟨body', rfl⟩
    | branch => exact absurd h.symm firstLine_branch_ne_ifThen
    | _ => simp [letter] at hletter
  | doUntil cond body =>
    cases s' with
    | doUntil cond' body' => exact ⟨cond', body', rfl⟩
    | _ => simp [letter] at hletter
  | forUntil var init cond body =>
    cases s' with
    | forUntil var' init' cond' body' =>
      simp only [firstLine_forUntil] at h
      obtain ⟨rfl, hinit⟩ := Reg.delimited_name.cut rfl (List.append_cancel_left h)
      obtain ⟨rfl, hcond⟩ := Expr.delimited_text.cut rfl (List.append_cancel_left hinit)
      obtain ⟨rfl, -⟩ := Cond.delimited_operand.cut rfl (List.append_cancel_left hcond)
      exact ⟨body', rfl⟩
    | _ => simp [letter] at hletter

end Stmt

/-! ## Code -/

/-- The lines go on with a brace that closes a body, if they go on. -/
def Closes (lines : List String) : Prop := ∀ l ∈ lines.head?, l.toList.head? = some '\x7d'

theorem closes_nil : Closes [] := nofun

theorem closes_cons {line : String} {rest : List String} (h : line.toList.head? = some '\x7d') :
    Closes (line :: rest) := by
  intro l hl
  obtain rfl := Option.some.inj hl
  exact h

theorem Stmt.not_closes_lines (s : Stmt) (depth : Nat) (u : List String) :
    ¬Closes (s.lines "" depth ++ u) := by
  obtain ⟨line, rest, hlines, hletter⟩ := s.lines_eq_cons depth
  rw [hlines]
  intro h
  have hbrace := (h line rfl).symm.trans hletter
  cases s <;> simp [Stmt.letter] at hbrace

/-- What stands between the first lines and what follows the last ones. -/
theorem inner_of_append_eq {first first' last last' : String} {body body' u v : List String}
    (h : first :: (body ++ [last]) ++ u = first' :: (body' ++ [last']) ++ v) :
    body ++ last :: u = body' ++ last' :: v := by
  simpa using (List.cons.inj h).2

mutual

/-- **The lines of a statement show what it is and where it ends.** -/
theorem Stmt.lines_append_inj (s s' : Stmt) {d d' : Nat} {u v : List String}
    (h : s.lines "" d ++ u = s'.lines "" d' ++ v) : s = s' ∧ u = v := by
  have hfirst : s.firstLine d = s'.firstLine d' := by
    obtain ⟨line, rest, hline, -⟩ := s.lines_eq_cons d
    obtain ⟨line', rest', hline', -⟩ := s'.lines_eq_cons d'
    rw [hline, hline'] at h
    rw [Stmt.firstLine, Stmt.firstLine, hline, hline', List.headD_cons, List.headD_cons,
      (List.cons.inj h).1]
  -- what is left to compare are bodies, each up to the brace that closes it
  have hopens := Stmt.opensAs_of_firstLine hfirst
  cases s with
  | ifThen cond body =>
    obtain ⟨body', rfl⟩ := hopens
    simp only [Stmt.lines, Layout.pad_empty] at h
    obtain ⟨rfl, hclose⟩ := Code.lines_append_inj body body' (closes_cons rfl) (closes_cons rfl)
      (inner_of_append_eq h)
    exact ⟨rfl, (List.cons.inj hclose).2⟩
  | doUntil cond body =>
    obtain ⟨cond', body', rfl⟩ := hopens
    simp only [Stmt.lines, Layout.pad_empty] at h
    obtain ⟨rfl, hclose⟩ := Code.lines_append_inj body body' (closes_cons (by simp))
      (closes_cons (by simp)) (inner_of_append_eq h)
    obtain ⟨hcond, huv⟩ := List.cons.inj hclose
    obtain rfl := Cond.text_injective (show cond.text = cond'.text by simpa using hcond)
    exact ⟨rfl, huv⟩
  | forUntil var init cond body =>
    obtain ⟨body', rfl⟩ := hopens
    simp only [Stmt.lines, Layout.pad_empty] at h
    obtain ⟨rfl, hclose⟩ := Code.lines_append_inj body body' (closes_cons rfl) (closes_cons rfl)
      (inner_of_append_eq h)
    exact ⟨rfl, (List.cons.inj hclose).2⟩
  | _ =>
    obtain rfl := hopens
    simpa [Stmt.lines] using h

/-- **The lines of a body show what it is**, up to the line that closes it. -/
theorem Code.lines_append_inj (code code' : List Stmt) {d d' : Nat} {u v : List String}
    (hu : Closes u) (hv : Closes v)
    (h : Code.lines "" d code ++ u = Code.lines "" d' code' ++ v) : code = code' ∧ u = v := by
  cases code with
  | nil =>
    cases code' with
    | nil => exact ⟨rfl, by simpa [Code.lines] using h⟩
    | cons s' rest' =>
      simp only [Code.lines, List.nil_append, List.append_assoc] at h
      exact absurd (h ▸ hu) (s'.not_closes_lines d' _)
  | cons s rest =>
    cases code' with
    | nil =>
      simp only [Code.lines, List.nil_append, List.append_assoc] at h
      exact absurd (h ▸ hv) (s.not_closes_lines d _)
    | cons s' rest' =>
      simp only [Code.lines, List.append_assoc] at h
      obtain ⟨rfl, hrest⟩ := Stmt.lines_append_inj s s' h
      obtain ⟨rfl, huv⟩ := Code.lines_append_inj rest rest' hu hv hrest
      exact ⟨rfl, huv⟩

end

/-! ## The whole text -/

namespace Pseudocode

theorem isMargin_lineNumber (n : Nat) : ∀ c ∈ (lineNumber n ++ ": ").toList, isMargin c = true := by
  have hzeros : ∀ c ∈ List.replicate (4 - n.repr.length) '0', isMargin c = true :=
    fun c hc ↦ (List.mem_replicate.mp hc).2 ▸ rfl
  have hdigits : ∀ c ∈ n.repr.toList, isMargin c = true :=
    fun c hc ↦ by simp [isMargin, (run_repr n).2 c hc]
  have hcolon : ∀ c ∈ (": " : String).toList, isMargin c = true := by simp [isMargin]
  rw [lineNumber, String.toList_append, String.toList_append, String.toList_ofList]
  exact List.forall_mem_append.mpr ⟨List.forall_mem_append.mpr ⟨hzeros, hdigits⟩, hcolon⟩

theorem map_bare_numbered (n : Nat) (ls : List String) :
    (numbered n ls).map bare = ls.map bare := by
  cases ls with
  | nil => rfl
  | cons first rest =>
    have hblank : ∀ c ∈ ("      " : String).toList, isMargin c = true := by simp [isMargin]
    simp [numbered, bare_append (isMargin_lineNumber n), bare_append hblank]

variable {layout : Layout}

theorem map_bare_zipIdx (h : Spaces layout.indent) (code : Code) (n : Nat) :
    ((code.zipIdx n).flatMap fun (s, line) ↦ numbered line (s.lines layout.indent 0)).map bare =
      (Code.lines "" 0 code).map bare := by
  induction code generalizing n with
  | nil => simp [Code.lines]
  | cons s rest ih =>
    simp only [List.zipIdx_cons, List.flatMap_cons, List.map_append, Code.lines]
    rw [map_bare_numbered, Stmt.map_bare_lines h, ih]

theorem lines_eq_flatMap (indent : String) (code : Code) :
    code.flatMap (fun s ↦ s.lines indent 0) = Code.lines indent 0 code := by
  induction code with
  | nil => simp [Code.lines]
  | cons s rest ih => rw [List.flatMap_cons, ih, Code.lines]

/-- **Without margins, all layouts are the same.** -/
theorem map_bare_lines (h : Spaces layout.indent) (ip : Reg) (code : Code) :
    (lines layout ip code).map bare = Code.lines "" 0 code := by
  have hbare : (Code.lines "" 0 code).map bare = Code.lines "" 0 code := by
    conv_rhs => rw [← List.map_id (Code.lines "" 0 code)]
    exact List.map_congr_left fun l hl ↦ bare_of_stops (Code.clean_lines code 0 l hl).1
  rw [lines]
  split
  · rw [map_bare_zipIdx h, hbare]
  · rw [lines_eq_flatMap, Code.map_bare_lines h, hbare]

theorem newline_not_mem_lines (h : Spaces layout.indent) {ip : Reg} {code : Code}
    {line : String} (hline : line ∈ lines layout ip code) : '\n' ∉ line.toList := by
  have hbare : bare line ∈ Code.lines "" 0 code := by
    rw [← map_bare_lines h ip]
    exact List.mem_map_of_mem hline
  intro hmem
  rw [← List.takeWhile_append_dropWhile (p := isMargin) (l := line.toList), List.mem_append] at hmem
  rcases hmem with hmargin | hrest
  · exact absurd (List.mem_takeWhile_imp hmargin) (by decide)
  · refine (Code.clean_lines code 0 _ hbare).2 ?_
    rwa [bare, String.toList_ofList]

theorem toList_header (ip : Reg) :
    (header ip).toList = "// Decompiled elfcode (#ip ".toList ++ (ip.val.repr.toList ++ [')']) := by
  have hheader : header ip = "// Decompiled elfcode (#ip " ++ ip.val.repr ++ ")" := rfl
  simp [hheader]

theorem newline_not_mem_header (ip : Reg) : '\n' ∉ (header ip).toList := by
  rw [toList_header]
  simp [newline_not_mem_toDigits]

theorem header_injective : Function.Injective header := by
  intro ip ip' h
  have hlist := congrArg String.toList h
  rw [toList_header, toList_header] at hlist
  exact Fin.ext (delimited_repr.cut rfl (List.append_cancel_left hlist)).1

theorem toList_emit (ip : Reg) (code : Code) :
    (emit layout ip code).toList =
      ((header ip :: lines layout ip code).map String.toList).flatMap (· ++ ['\n']) := by
  rw [emit, String.toList_join, List.flatMap_map, List.flatMap_map]
  simp

/-- The text consists of its lines and no others. -/
theorem lines_toList_emit (h : Spaces layout.indent) (ip : Reg) (code : Code) :
    Text.lines (emit layout ip code).toList =
      (header ip :: lines layout ip code).map String.toList ++ [[]] := by
  rw [toList_emit, Text.lines_flatMap]
  intro l hl
  obtain ⟨line, hline, rfl⟩ := List.mem_map.mp hl
  rcases List.mem_cons.mp hline with rfl | hline
  · exact newline_not_mem_header ip
  · exact newline_not_mem_lines h hline

/-- Texts are equal for equal code only, whatever their layouts. -/
theorem eq_of_emit_eq {layout' : Layout} (h : Spaces layout.indent)
    (h' : Spaces layout'.indent) {ip ip' : Reg} {code code' : Code}
    (heq : emit layout ip code = emit layout' ip' code') : ip = ip' ∧ code = code' := by
  have hlines : header ip :: lines layout ip code = header ip' :: lines layout' ip' code' := by
    have hall := lines_toList_emit h ip code
    rw [heq, lines_toList_emit h'] at hall
    exact List.map_injective_iff.mpr (fun _ _ ↦ String.toList_injective)
      (List.append_cancel_right hall.symm)
  obtain ⟨hheader, hrest⟩ := List.cons.inj hlines
  have hbare : Code.lines "" 0 code ++ [] = Code.lines "" 0 code' ++ [] := by
    rw [← map_bare_lines h ip, hrest, map_bare_lines h']
  exact ⟨header_injective hheader, (Code.lines_append_inj code code' closes_nil closes_nil hbare).1⟩

/-- **Pseudocode determines the code and the pointer**, in every layout that indents with spaces,
and the text of an expression determines the expression. -/
theorem emit_injective :
    (∀ layout : Layout, Spaces layout.indent →
      Function.Injective fun d : Reg × Code ↦ emit layout d.1 d.2) ∧
    Function.Injective Expr.text ∧ Function.Injective Cond.text := by
  refine ⟨fun layout h d d' heq ↦ ?_, fun e e' heq ↦ ?_, Cond.text_injective⟩
  · obtain ⟨hip, hcode⟩ := eq_of_emit_eq h h heq
    exact Prod.ext hip hcode
  · exact Expr.delimited_text.injective (congrArg String.toList heq)

/-- Without indentation, it is the brace that tells where a body ends. -/
theorem emit_injective_flush :
    emit ⟨.never, ""⟩ 4 [.ifThen ⟨.gt, .reg 0, .lit (-1)⟩ [.halt]] ≠
      emit ⟨.never, ""⟩ 4 [.ifThen ⟨.gt, .reg 0, .lit (-1)⟩ [], .halt] := by
  obtain ⟨hemit, -⟩ := emit_injective
  exact fun h ↦ absurd (@hemit ⟨.never, ""⟩ (by decide) (4, _) (4, _) h) (by simp)

end Pseudocode

end Unjump
