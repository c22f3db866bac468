import Unjump.Proofs.Grammar

/-!
# Printed listings

A program is printed with its header on the first line and one instruction on every line after it,
the words of a line one blank apart. Each printed line is a row of the grammar as it stands
(`Program.rows_text`), and the line of instruction `n`, counted from 0, is line `n + 2`, counted
from 1.

## Signs

A word is printed with a sign if it is negative, and the grammar has no signs: a number of a listing
is a run of digits. So a printed instruction is read back exactly if none of its operands is
negative, those included that its opcode ignores. Otherwise its line does not even have the right
shape (`Instruction.reads_text`, `Instruction.not_instructionShape_text`). On the other hand nothing
that was read from a listing holds a negative operand, so what was read can always be printed and
read again.
-/

namespace Unjump

namespace Text

/-! ## Words with blanks between them only -/

theorem Run.of_isDigit {w : List Char} (h : Run Char.isDigit w) : Run (!isBlank ·) w :=
  h.mono fun c hc ↦ by
    rw [isBlank_of_isDecimalDigit (isDecimalDigit_of_isDigit hc), Bool.not_false]

theorem Run.of_isAlpha {w : List Char} (h : Run Char.isAlpha w) : Run (!isBlank ·) w :=
  h.mono fun c hc ↦ by rw [isBlank_of_isAlpha hc, Bool.not_false]

theorem Run.newline_not_mem {w : List Char} (h : Run (!isBlank ·) w) : '\n' ∉ w :=
  fun hmem ↦ absurd (h.2 _ hmem) (by decide)

theorem run_blank : Run isBlank [' '] := ⟨List.cons_ne_nil _ _, List.all_eq_true.mp rfl⟩

theorem Spaced.ne_nil {w cs : List Char} {ws : List (List Char)} (h : Spaced (w :: ws) cs) :
    cs ≠ [] := by
  rintro rfl
  rcases ws with _ | ⟨v, ws⟩
  · obtain ⟨hw, rfl⟩ := spaced_singleton_iff.mp h
    exact hw.1 rfl
  · obtain ⟨gap, rest, hw, -, -, heq⟩ := spaced_cons_iff.mp h
    exact hw.1 (List.append_eq_nil_iff.mp (List.append_eq_nil_iff.mp heq.symm).1).1

/-- A text that consists of words begins and ends with one. -/
theorem Spaced.tight {ws : List (List Char)} {cs : List Char} (h : Spaced ws cs) : Tight cs := by
  have word {w : List Char} (hw : Run (!isBlank ·) w) {c : Char} (hc : c ∈ w) :
      isBlank c = false := by simpa using hw.2 c hc
  induction h with
  | nil => exact ⟨nofun, nofun⟩
  | one hw =>
    exact ⟨fun c hc ↦ word hw (List.mem_of_head? hc),
      fun c hc ↦ word hw (List.mem_of_getLast? hc)⟩
  | cons hw hgap hrest ih =>
    obtain ⟨c, w, rfl⟩ := List.exists_cons_of_ne_nil hw.1
    refine ⟨fun d hd ↦ ?_, fun d hd ↦ ih.last d ?_⟩
    · obtain rfl := Option.some.inj hd
      exact word hw List.mem_cons_self
    · rwa [List.getLast?_append_of_ne_nil _ hrest.ne_nil] at hd

theorem Spaced.trim_eq {ws : List (List Char)} {cs : List Char} (h : Spaced ws cs) :
    trim cs = cs :=
  (trimmed_iff.mp ⟨h.tight, [], [], nofun, nofun, by simp⟩).symm

theorem Spaced.words_eq {ws : List (List Char)} {cs : List Char} (h : Spaced ws cs) :
    words cs = ws :=
  words_eq_iff.mpr (h.trim_eq.symm ▸ h)

/-! ## Lines that end in newlines -/

/-- Behind the last newline there is one more line, which is empty. -/
theorem lines_flatMap {ls : List (List Char)} (h : ∀ l ∈ ls, '\n' ∉ l) :
    lines (ls.flatMap (· ++ ['\n'])) = ls ++ [[]] := by
  have join (ls : List (List Char)) :
      ['\n'].intercalate (ls ++ [[]]) = ls.flatMap (· ++ ['\n']) := by
    induction ls with
    | nil => rfl
    | cons l ls ih =>
      rw [List.cons_append, List.intercalate_cons_of_ne_nil (by simp), ih, List.flatMap_cons]
  refine (lined_iff.mp ⟨by simp, fun l hl ↦ ?_, join ls⟩).symm
  rcases List.mem_append.mp hl with hl | hl
  · exact h l hl
  · rw [List.mem_singleton.mp hl]
    exact List.not_mem_nil

/-! ## Printed numbers -/

theorem run_repr (n : Nat) : Run Char.isDigit n.repr.toList := by
  rw [Nat.toList_repr]
  exact ⟨Nat.toDigits_ne_nil, fun c ↦ Nat.isDigit_of_mem_toDigits (by decide) (by decide)⟩

/-- A natural number is printed in digits that denote it. -/
theorem denotes_repr {n : Nat} {w : Word} (h : w.toInt = n) : Denotes n.repr.toList w := by
  refine ⟨run_repr n, ?_⟩
  rw [Nat.toList_repr, Nat.ofDigitChars_toDigits (by decide) (by decide), h]

end Text

namespace Word

theorem text_of_nonneg {w : Word} (h : 0 ≤ w.toInt) : w.text = w.toInt.toNat.repr := by
  obtain ⟨n, hn⟩ := Int.eq_ofNat_of_zero_le h
  rw [text, hn]
  rfl

theorem text_of_neg {w : Word} (h : w.toInt < 0) :
    w.text.toList = '-' :: (-w.toInt).toNat.repr.toList := by
  obtain ⟨n, hn⟩ := Int.eq_negSucc_of_lt_zero h
  rw [text, hn, Int.neg_negSucc, Int.toNat_natCast]
  exact String.toList_append

theorem run_text (w : Word) : Text.Run (!Text.isBlank ·) w.text.toList := by
  by_cases h : 0 ≤ w.toInt
  · rw [text_of_nonneg h]
    exact (Text.run_repr _).of_isDigit
  · rw [text_of_neg (Int.not_le.mp h)]
    exact ⟨List.cons_ne_nil _ _,
      List.forall_mem_cons.mpr ⟨by decide, (Text.run_repr _).of_isDigit.2⟩⟩

/-- **A printed word is a number of a listing exactly if it is not negative.** -/
theorem isNumber_text_iff {w : Word} : Listing.isNumber w.text.toList = true ↔ 0 ≤ w.toInt := by
  constructor
  · intro hnum
    by_contra h
    have hsign := List.all_eq_true.mp hnum '-' (by simp [text_of_neg (Int.not_le.mp h)])
    exact absurd hsign (by decide)
  · intro h
    rw [text_of_nonneg h]
    exact Listing.isNumber_of_run ((Text.run_repr _).mono fun c ↦ Text.isDecimalDigit_of_isDigit)

theorem denotes_text {w : Word} (h : 0 ≤ w.toInt) : Text.Denotes w.text.toList w := by
  rw [text_of_nonneg h]
  exact Text.denotes_repr (Int.toNat_of_nonneg h).symm

end Word

/-! ## Printed instructions -/

theorem Opcode.run_mnemonic (op : Opcode) : Text.Run Char.isAlpha op.mnemonic.toList := by
  refine ⟨?_, List.all_eq_true.mp ?_⟩ <;> cases op <;> decide

namespace Instruction

/-- No operand is negative, whether or not the opcode looks at it. -/
def NonNegative (i : Instruction) : Prop := 0 ≤ i.a.toInt ∧ 0 ≤ i.b.toInt ∧ 0 ≤ i.c.toInt

instance (i : Instruction) : Decidable i.NonNegative :=
  inferInstanceAs (Decidable (_ ∧ _ ∧ _))

theorem toList_text (i : Instruction) :
    i.text.toList = i.opcode.mnemonic.toList ++ [' '] ++
      (i.a.text.toList ++ [' '] ++ (i.b.text.toList ++ [' '] ++ i.c.text.toList)) := by
  have hblank : (" " : String).toList = [' '] := rfl
  simp only [text, String.toList_append, hblank, List.append_assoc]

theorem spaced_text (i : Instruction) :
    Text.Spaced
      [i.opcode.mnemonic.toList, i.a.text.toList, i.b.text.toList, i.c.text.toList]
      i.text.toList := by
  rw [toList_text]
  exact .cons i.opcode.run_mnemonic.of_isAlpha Text.run_blank
    (.cons i.a.run_text Text.run_blank (.cons i.b.run_text Text.run_blank (.one i.c.run_text)))

theorem newline_not_mem_text (i : Instruction) : '\n' ∉ i.text.toList := by
  have gap : '\n' ∉ [' '] := by decide
  simp only [toList_text, List.mem_append, not_or]
  exact ⟨⟨i.opcode.run_mnemonic.of_isAlpha.newline_not_mem, gap⟩,
    ⟨i.a.run_text.newline_not_mem, gap⟩, ⟨i.b.run_text.newline_not_mem, gap⟩,
    i.c.run_text.newline_not_mem⟩

/-- **An instruction without a negative operand is what its printed line is read as.** -/
theorem reads_text {i : Instruction} (hi : i.WellFormed) (h : i.NonNegative) :
    Listing.Reads i.text.toList i := by
  obtain ⟨ha, hb, hc⟩ := h
  have number {w : Word} (hw : 0 ≤ w.toInt) : Text.Run Text.isDecimalDigit w.text.toList :=
    Listing.run_of_isNumber w.run_text (Word.isNumber_text_iff.mpr hw)
  have hshape : Listing.InstructionShape i.text.toList i.opcode.mnemonic.toList i.a.text.toList
      i.b.text.toList i.c.text.toList :=
    ⟨[' '], [' '], [' '], Text.run_blank, Text.run_blank, Text.run_blank, i.opcode.run_mnemonic,
      number ha, number hb, number hc, i.toList_text⟩
  exact ⟨_, _, _, _, hshape, String.ofList_toList.symm, Word.denotes_text ha, Word.denotes_text hb,
    Word.denotes_text hc, wellFormed_iff_registerOperands.mp hi⟩

/-- With a negative operand the printed line does not have the shape of an instruction. -/
theorem not_instructionShape_text {i : Instruction} (h : ¬i.NonNegative) :
    ¬∃ m a b c, Listing.InstructionShape i.text.toList m a b c := by
  rintro ⟨m, a, b, c, hshape⟩
  rw [← i.spaced_text.trim_eq, ← Listing.instructionShape?_eq_some_iff,
    Listing.instructionShape?, i.spaced_text.words_eq] at hshape
  obtain ⟨⟨-, ha, hb, hc⟩, -⟩ := Option.ite_none_right_eq_some.mp hshape
  exact h ⟨Word.isNumber_text_iff.mp ha, Word.isNumber_text_iff.mp hb,
    Word.isNumber_text_iff.mp hc⟩

/-- What a row is read as has no negative operand. -/
theorem nonNegative_of_reads {row : List Char} {i : Instruction} (h : Listing.Reads row i) :
    i.NonNegative := by
  obtain ⟨m, a, b, c, -, -, ⟨-, ha⟩, ⟨-, hb⟩, ⟨-, hc⟩, -⟩ := h
  exact ⟨ha ▸ Int.natCast_nonneg _, hb ▸ Int.natCast_nonneg _, hc ▸ Int.natCast_nonneg _⟩

end Instruction

/-! ## Printed programs -/

/-- The first line of a printed program. -/
def Reg.headerText (ip : Reg) : List Char := ['#', 'i', 'p'] ++ [' '] ++ ip.val.repr.toList

namespace Reg

theorem spaced_headerText (ip : Reg) :
    Text.Spaced [['#', 'i', 'p'], ip.val.repr.toList] ip.headerText :=
  .cons ⟨List.cons_ne_nil _ _, List.all_eq_true.mp rfl⟩ Text.run_blank
    (.one (Text.run_repr _).of_isDigit)

theorem newline_not_mem_headerText (ip : Reg) : '\n' ∉ ip.headerText := by
  simp only [headerText, List.mem_append, not_or]
  exact ⟨by decide, (Text.run_repr _).of_isDigit.newline_not_mem⟩

theorem binds_headerText (ip : Reg) : Listing.Binds ip.headerText ip := by
  have hw : (Int64.ofNat ip.val).toInt = ip.val :=
    Int64.toInt_ofNat_of_lt (Nat.lt_trans ip.isLt (by decide))
  have hshape : Listing.HeaderShape ip.headerText ip.val.repr.toList :=
    ⟨[' '], Text.run_blank, (Text.run_repr _).mono fun c ↦ Text.isDecimalDigit_of_isDigit, rfl⟩
  exact ⟨_, Int64.ofNat ip.val, hshape, Text.denotes_repr hw, hw⟩

end Reg

namespace Program

theorem toList_text (p : Program) :
    p.text.toList =
      (p.ip.headerText :: p.instructions.toList.map fun i ↦ i.text.toList).flatMap
        (· ++ ['\n']) := by
  have hnewline : ("\n" : String).toList = ['\n'] := rfl
  have fold (is : List Instruction) (s : String) :
      (is.foldl (fun s i ↦ s ++ i.text ++ "\n") s).toList =
        s.toList ++ is.flatMap fun i ↦ i.text.toList ++ ['\n'] := by
    induction is generalizing s with
    | nil => simp
    | cons i is ih =>
      rw [List.foldl_cons, ih, List.flatMap_cons, String.toList_append, String.toList_append,
        hnewline, List.append_assoc, List.append_assoc, List.append_assoc]
  have hheader : ("#ip " ++ p.ip.val.repr ++ "\n").toList = p.ip.headerText ++ ['\n'] := by
    rw [String.toList_append, String.toList_append, hnewline]
    rfl
  rw [text, ← Array.foldl_toList, fold, hheader, List.flatMap_cons, List.flatMap_map]

/-- **The rows of a printed program are its printed lines**, and an empty row at the end. -/
theorem rows_text (p : Program) :
    (Text.lines p.text.toList).map Text.trim =
      p.ip.headerText :: (p.instructions.toList.map (fun i ↦ i.text.toList) ++ [[]]) := by
  have hlines : Text.lines p.text.toList =
      (p.ip.headerText :: p.instructions.toList.map fun i ↦ i.text.toList) ++ [[]] := by
    rw [toList_text]
    refine Text.lines_flatMap (List.forall_mem_cons.mpr ⟨p.ip.newline_not_mem_headerText, ?_⟩)
    rintro l hl
    obtain ⟨i, -, rfl⟩ := List.mem_map.mp hl
    exact i.newline_not_mem_text
  have htrim : ∀ i : Instruction, Text.trim i.text.toList = i.text.toList :=
    fun i ↦ i.spaced_text.trim_eq
  rw [hlines, List.cons_append, List.map_cons, List.map_append, List.map_map,
    p.ip.spaced_headerText.trim_eq]
  simp only [Function.comp_def, htrim]
  rfl

/-- Without negative operands the rows list the program. -/
theorem lists_text {p : Program} (h : ∀ i ∈ p.instructions, i.NonNegative) :
    Listing.Lists ((Text.lines p.text.toList).map Text.trim) p.ip p.instructions.toList := by
  refine ⟨_, p.instructions.toList.map fun i ↦ i.text.toList, ?_, p.ip.binds_headerText, ?_⟩
  · have hkeep : ∀ l ∈ p.instructions.toList.map (fun i ↦ i.text.toList), (!l.isEmpty) = true := by
      intro l hl
      obtain ⟨i, -, rfl⟩ := List.mem_map.mp hl
      simpa using i.spaced_text.ne_nil
    rw [rows_text, List.filter_cons_of_pos rfl, List.filter_append,
      List.filter_eq_self.mpr hkeep, List.filter_cons_of_neg (by simp), List.filter_nil,
      List.append_nil]
  · rw [List.forall₂_map_left_iff, List.forall₂_same]
    intro i hi
    exact Instruction.reads_text (p.wellFormed i (by simpa using hi)) (h i (by simpa using hi))

end Program

namespace Listing

/-- What was read from a text was listed by its rows. -/
theorem exists_reads_of_parse {text : String} {p : Program} (h : parse text = .ok p) :
    ∃ body, List.Forall₂ Reads body p.instructions.toList := by
  rcases lists_or_blames ((Text.lines text.toList).map Text.trim) with ⟨ip, is, hl⟩ | ⟨e, he⟩
  · obtain ⟨q, hnew, hq⟩ := parse_of_lists hl
    obtain rfl := Except.ok.inj (h.symm.trans hq)
    obtain ⟨-, body, -, -, hbody⟩ := hl
    rw [(Program.ofInstructions_eq_ok_iff.mp hnew).2]
    exact ⟨body, hbody⟩
  · rw [parse_of_blames he] at h
    injection h

theorem nonNegative_of_parse {text : String} {p : Program} (h : parse text = .ok p) :
    ∀ i ∈ p.instructions, i.NonNegative := by
  obtain ⟨body, hbody⟩ := exists_reads_of_parse h
  intro i hi
  obtain ⟨n, hn, rfl⟩ := List.getElem_of_mem (Array.mem_toList_iff.mpr hi)
  exact Instruction.nonNegative_of_reads (hbody.get (hbody.length_eq ▸ hn) hn)

theorem parse_text {p : Program} (h : ∀ i ∈ p.instructions, i.NonNegative) :
    parse p.text = .ok p := by
  obtain ⟨q, hnew, hq⟩ := parse_of_lists (Program.lists_text h)
  have hp : Program.ofInstructions p.ip p.instructions = .ok p :=
    Program.ofInstructions_eq_ok_iff.mpr ⟨rfl, rfl⟩
  rw [hq, ← hnew, ← hp]

/-- The first instruction with a negative operand is to blame. -/
theorem parse_text_of_negative {p : Program} {before after : List Instruction} {i : Instruction}
    (hp : p.instructions.toList = before ++ i :: after) (hbefore : ∀ j ∈ before, j.NonNegative)
    (hi : ¬i.NonNegative) :
    parse p.text = .error (.parse (before.length + 2)
      ("expected `<mnemonic> <a> <b> <c>`, got `" ++ i.text ++ "`")) := by
  have hrows := p.rows_text
  rw [hp, List.map_append, List.map_cons, List.append_assoc, List.cons_append] at hrows
  have hfault : Fault (before.length + 2) i.text.toList _ :=
    .shape (Instruction.not_instructionShape_text hi)
  rw [String.ofList_toList] at hfault
  -- the header is the first line
  refine parse_of_blames (@Blames.instruction _ [] _ _ _ _ _ _ hrows nofun p.ip.binds_headerText ?_
    i.spaced_text.ne_nil ?_)
  · rintro l hl
    obtain ⟨j, hj, rfl⟩ := List.mem_map.mp hl
    have hmem : j ∈ p.instructions := by
      rw [← Array.mem_toList_iff, hp]
      exact List.mem_append_left _ hj
    exact .inr ⟨j, Instruction.reads_text (p.wellFormed j hmem) (hbefore j hj)⟩
  · rw [List.length_nil, List.length_map, Nat.zero_add, Nat.add_comm 1]
    exact hfault

/-- **Printing and reading are inverse exactly on programs without negative operands.** Otherwise
the line of the first instruction that has one is blamed. What was read from a listing has none, so
it is what its print is read as. -/
theorem parse_printed :
    (∀ p : Program, (∀ i ∈ p.instructions, i.NonNegative) → parse p.text = .ok p) ∧
    (∀ (p : Program) (n : Nat) (i : Instruction), p.instructions[n]? = some i → ¬i.NonNegative →
      (∀ m < n, ∀ j, p.instructions[m]? = some j → j.NonNegative) →
        parse p.text = .error (.parse (n + 2)
          ("expected `<mnemonic> <a> <b> <c>`, got `" ++ i.text ++ "`"))) ∧
    ∀ (text : String) (p : Program), parse text = .ok p →
      (∀ i ∈ p.instructions, i.NonNegative) ∧ parse p.text = .ok p := by
  refine ⟨fun p ↦ parse_text, fun p n i hi hneg hfirst ↦ ?_, fun text p h ↦ ?_⟩
  · rw [← Array.getElem?_toList] at hi
    obtain ⟨hn, rfl⟩ := List.getElem?_eq_some_iff.mp hi
    have hsplit : p.instructions.toList =
        p.instructions.toList.take n ++
          p.instructions.toList[n] :: p.instructions.toList.drop (n + 1) := by
      rw [List.getElem_cons_drop, List.take_append_drop]
    have hblame := parse_text_of_negative hsplit (fun j hj ↦ ?_) hneg
    · rwa [List.length_take_of_le (Nat.le_of_lt hn)] at hblame
    · obtain ⟨m, hm, rfl⟩ := List.mem_take_iff_getElem.mp hj
      refine hfirst m (by omega) _ ?_
      rw [← Array.getElem?_toList, List.getElem?_eq_getElem (by omega)]
  · exact ⟨nonNegative_of_parse h, parse_text (nonNegative_of_parse h)⟩

/-- The second operand of `seti` is ignored. -/
def ignoredSign : Program := ⟨4, #[⟨.seti, 5, 0, 1⟩, ⟨.seti, 1, -7, 0⟩], by decide⟩

theorem parse_printed_ignoredSign :
    (∃ p, parse "#ip 4\n\nseti 05 0  1" = .ok p ∧ p.text = "#ip 4\nseti 5 0 1\n" ∧
      parse p.text = .ok p) ∧
    parse ignoredSign.text =
      .error (.parse 3 "expected `<mnemonic> <a> <b> <c>`, got `seti 1 -7 0`") := by
  obtain ⟨hprint, hblame, hread⟩ := parse_printed
  have hp : parse "#ip 4\n\nseti 05 0  1" = .ok ⟨4, #[⟨.seti, 5, 0, 1⟩], by decide⟩ := rfl
  have hprinted := hprint ⟨4, #[⟨.seti, 5, 0, 1⟩], by decide⟩ (hread _ _ hp).1
  refine ⟨⟨_, hp, rfl, hprinted⟩, hblame ignoredSign 1 _ rfl (by decide) fun m hm j hj ↦ ?_⟩
  obtain rfl : m = 0 := by omega
  obtain rfl := Option.some.inj hj
  decide

end Listing

end Unjump
