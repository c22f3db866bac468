import Mathlib.Data.List.TakeWhile
import Unjump.Text.Blank
import Unjump.Text.Digit

/-!
# Splitting is unique

A text is cut at newlines into lines, and a line at its blanks into words. Both are functions here;
this file says by what their results are known. The lines of a text are the only ones that have no
newline in them and give the text when joined by newlines (`lined_iff`). Trimming gives the only
part of a line that has nothing but blanks around it and no blank at either end (`trimmed_iff`). A
trimmed line consists of its words with gaps between them, and of no other words (`words_eq_iff`).
-/

namespace Unjump.Text

/-- One or more characters, all of one class. -/
def Run (p : Char → Bool) (cs : List Char) : Prop := cs ≠ [] ∧ ∀ c ∈ cs, p c = true

theorem Run.mono {p q : Char → Bool} {cs : List Char} (h : Run p cs)
    (hpq : ∀ c, p c = true → q c = true) : Run q cs :=
  ⟨h.1, fun c hc ↦ hpq c (h.2 c hc)⟩

/-- Nothing but blanks, if anything. -/
def Blanks (cs : List Char) : Prop := ∀ c ∈ cs, isBlank c = true

/-! ## Lines -/

/-- The text is these lines, with a newline between every two. -/
structure Lined (cs : List Char) (ls : List (List Char)) : Prop where
  ne_nil : ls ≠ []
  newline : ∀ l ∈ ls, '\n' ∉ l
  join : ['\n'].intercalate ls = cs

theorem newline_not_mem_of_mem_lines {cs l : List Char} (h : l ∈ lines cs) : '\n' ∉ l := by
  induction cs generalizing l with
  | nil =>
    rw [lines, List.splitOn_nil, List.mem_singleton] at h
    simp [h]
  | cons c cs ih =>
    rw [lines, List.splitOn_cons_eq_if_modifyHead] at h
    by_cases hc : (c == '\n') = true
    · rw [if_pos hc] at h
      rcases List.mem_cons.mp h with rfl | h
      · exact List.not_mem_nil
      · exact ih h
    · -- the character goes to the front of the first line
      rw [if_neg hc] at h
      rcases hls : cs.splitOn '\n' with _ | ⟨l', ls⟩
      · exact absurd hls (List.splitOn_ne_nil _ _)
      · rw [hls, List.modifyHead_cons] at h
        rcases List.mem_cons.mp h with rfl | h
        · have hl' := ih (l := l') (by simp [lines, hls])
          rintro (_ | ⟨_, hmem⟩)
          · exact hc (beq_self_eq_true _)
          · exact hl' hmem
        · exact ih (by simp [lines, hls, h])

/-- **A text has its lines and no others.** -/
theorem lined_iff {cs : List Char} {ls : List (List Char)} : Lined cs ls ↔ ls = lines cs := by
  constructor
  · rintro ⟨hne, hnl, rfl⟩
    exact (List.splitOn_intercalate '\n' hnl hne).symm
  · rintro rfl
    exact ⟨List.splitOn_ne_nil _ _, fun l ↦ newline_not_mem_of_mem_lines,
      List.intercalate_splitOn '\n'⟩

/-! ## Trimming -/

/-- No blank stands first or last. -/
structure Tight (cs : List Char) : Prop where
  first : ∀ c ∈ cs.head?, isBlank c = false
  last : ∀ c ∈ cs.getLast?, isBlank c = false

/-- The line is `t` with blanks around it, and no blank is at either end of `t`. -/
def Trimmed (line t : List Char) : Prop :=
  Tight t ∧ ∃ lead trail, Blanks lead ∧ Blanks trail ∧ line = lead ++ t ++ trail

theorem blanks_takeWhile (cs : List Char) : Blanks (cs.takeWhile isBlank) :=
  fun _ ↦ List.mem_takeWhile_imp

theorem Blanks.reverse {cs : List Char} (h : Blanks cs) : Blanks cs.reverse :=
  fun c hc ↦ h c (List.mem_reverse.mp hc)

/-- What the blanks in front are dropped from does not begin with one. -/
theorem head?_dropWhile (cs : List Char) :
    ∀ c ∈ (cs.dropWhile isBlank).head?, isBlank c = false := by
  intro c hc
  have h := List.head?_dropWhile_not isBlank cs
  rwa [Option.mem_def.mp hc] at h

theorem dropWhile_of_head? {cs : List Char} (h : ∀ c ∈ cs.head?, isBlank c = false) :
    cs.dropWhile isBlank = cs := by
  rcases cs with _ | ⟨c, cs⟩
  · rfl
  · rw [List.dropWhile_cons_of_neg (by simp [h c rfl])]

theorem trimmed_trim (line : List Char) : Trimmed line (trim line) := by
  -- the blanks in front go first, then those at the end of what is left
  have hrest : line.dropWhile isBlank =
      trim line ++ ((line.dropWhile isBlank).reverse.takeWhile isBlank).reverse := by
    rw [trim, ← List.reverse_append, List.takeWhile_append_dropWhile, List.reverse_reverse]
  refine ⟨⟨fun c hc ↦ ?_, fun c hc ↦ ?_⟩, line.takeWhile isBlank,
    ((line.dropWhile isBlank).reverse.takeWhile isBlank).reverse, blanks_takeWhile line,
    (blanks_takeWhile _).reverse, ?_⟩
  · refine head?_dropWhile line c ?_
    rw [hrest, List.head?_append, Option.mem_def.mp hc]
    rfl
  · rw [trim, List.getLast?_reverse] at hc
    exact head?_dropWhile _ c hc
  · rw [List.append_assoc, ← hrest, List.takeWhile_append_dropWhile]

theorem Trimmed.eq_trim {line t : List Char} (h : Trimmed line t) : t = trim line := by
  obtain ⟨⟨hfirst, hlast⟩, lead, trail, hlead, htrail, rfl⟩ := h
  rw [trim, List.append_assoc, List.dropWhile_append_of_pos hlead]
  rcases t with _ | ⟨c, t⟩
  · rw [List.nil_append, List.dropWhile_eq_nil_iff.mpr htrail]
    rfl
  · have hfirst' : ∀ d ∈ (c :: t ++ trail).head?, isBlank d = false := hfirst
    rw [dropWhile_of_head? hfirst', List.reverse_append,
      List.dropWhile_append_of_pos htrail.reverse,
      dropWhile_of_head? (by simpa only [List.head?_reverse] using hlast), List.reverse_reverse]

/-- **A line is trimmed in one way only.** -/
theorem trimmed_iff {line t : List Char} : Trimmed line t ↔ t = trim line :=
  ⟨Trimmed.eq_trim, fun h ↦ h ▸ trimmed_trim line⟩

/-! ## Words -/

/-- A text that consists of these words, with a gap between every two. -/
inductive Spaced : List (List Char) → List Char → Prop
  | nil : Spaced [] []
  | one {w : List Char} (hw : Run (!isBlank ·) w) : Spaced [w] w
  | cons {w gap v cs : List Char} {ws : List (List Char)} (hw : Run (!isBlank ·) w)
    (hgap : Run isBlank gap) (h : Spaced (v :: ws) cs) : Spaced (w :: v :: ws) (w ++ gap ++ cs)

theorem spaced_nil_iff {cs : List Char} : Spaced [] cs ↔ cs = [] := by
  constructor
  · rintro ⟨⟩
    rfl
  · rintro rfl
    exact .nil

theorem spaced_singleton_iff {w cs : List Char} :
    Spaced [w] cs ↔ Run (!isBlank ·) w ∧ cs = w := by
  constructor
  · rintro ⟨⟩
    exact ⟨‹_›, rfl⟩
  · rintro ⟨hw, rfl⟩
    exact .one hw

theorem spaced_cons_iff {w v cs : List Char} {ws : List (List Char)} :
    Spaced (w :: v :: ws) cs ↔
      ∃ gap rest, Run (!isBlank ·) w ∧ Run isBlank gap ∧ Spaced (v :: ws) rest ∧
        cs = w ++ gap ++ rest := by
  constructor
  · rintro ⟨⟩
    exact ⟨_, _, ‹_›, ‹_›, ‹_›, rfl⟩
  · rintro ⟨gap, rest, hw, hgap, h, rfl⟩
    exact .cons hw hgap h

theorem words_cons_of_isBlank {c : Char} (hc : isBlank c = true) (cs : List Char) :
    words (c :: cs) = words cs := by
  rw [words, List.splitOnP_cons_eq_if_modifyHead, if_pos hc]
  rfl

theorem words_append_of_blanks {gap : List Char} (h : Blanks gap) (cs : List Char) :
    words (gap ++ cs) = words cs := by
  induction gap with
  | nil => rfl
  | cons c gap ih =>
    rw [List.cons_append, words_cons_of_isBlank (h c List.mem_cons_self)]
    exact ih fun d hd ↦ h d (List.mem_cons_of_mem c hd)

theorem words_of_blanks {cs : List Char} (h : Blanks cs) : words cs = [] := by
  have := words_append_of_blanks h []
  rwa [List.append_nil] at this

theorem words_of_run {w : List Char} (hw : Run (!isBlank ·) w) : words w = [w] := by
  have hnot : ∀ c ∈ w, isBlank c = false := fun c hc ↦ by simpa using hw.2 c hc
  rw [words, List.splitOnP_eq_singleton hnot]
  simp [hw.1]

/-- A word ends at the first blank after it. -/
theorem words_append_of_gap {w gap : List Char} (hw : Run (!isBlank ·) w) (hgap : Run isBlank gap)
    (cs : List Char) : words (w ++ gap ++ cs) = w :: words cs := by
  have hnot : ∀ c ∈ w, isBlank c = false := fun c hc ↦ by simpa using hw.2 c hc
  obtain ⟨hne, hblank⟩ := hgap
  rcases gap with _ | ⟨c, gap⟩
  · exact absurd rfl hne
  · have hrest : words (gap ++ cs) = words cs :=
      words_append_of_blanks (fun d hd ↦ hblank d (List.mem_cons_of_mem c hd)) cs
    rw [← hrest, List.append_assoc, List.cons_append, words,
      List.splitOnP_append_cons_of_forall_mem hnot c (hblank c List.mem_cons_self),
      List.filter_cons_of_pos (by simp [hw.1])]
    rfl

/-- The words of a text are those it consists of, also with blanks behind. -/
theorem Spaced.words_append {ws : List (List Char)} {cs trail : List Char} (h : Spaced ws cs)
    (htrail : Blanks trail) : words (cs ++ trail) = ws := by
  induction h with
  | nil => exact words_of_blanks htrail
  | one hw =>
    rcases trail with _ | ⟨c, trail⟩
    · rw [List.append_nil, words_of_run hw]
    · have := words_append_of_gap hw ⟨List.cons_ne_nil c trail, htrail⟩ []
      rwa [List.append_nil] at this
  | cons hw hgap _ ih => rw [List.append_assoc, words_append_of_gap hw hgap, ih]

/-- The first word of a text, and what follows it. -/
theorem exists_run_append {cs : List Char} (hne : cs ≠ [])
    (hfirst : ∀ c ∈ cs.head?, isBlank c = false) :
    ∃ w rest, cs = w ++ rest ∧ Run (!isBlank ·) w ∧ ∀ c ∈ rest.head?, isBlank c = true := by
  refine ⟨cs.takeWhile (!isBlank ·), cs.dropWhile (!isBlank ·),
    List.takeWhile_append_dropWhile.symm, ⟨?_, fun c ↦ List.mem_takeWhile_imp⟩, fun c hc ↦ ?_⟩
  · rcases cs with _ | ⟨c, cs⟩
    · exact absurd rfl hne
    · rw [List.takeWhile_cons_of_pos (by simp [hfirst c rfl])]
      exact List.cons_ne_nil _ _
  · have h := List.head?_dropWhile_not (!isBlank ·) cs
    rw [Option.mem_def.mp hc] at h
    simpa using h

theorem Tight.exists_spaced {cs : List Char} (h : Tight cs) : ∃ ws, Spaced ws cs := by
  -- without its first word and the gap behind it the text is shorter and as tight
  induction hn : cs.length using Nat.strongRecOn generalizing cs with
  | ind n ih =>
    by_cases hcs : cs = []
    · exact ⟨[], hcs ▸ .nil⟩
    obtain ⟨w, rest, rfl, hw, hrest⟩ := exists_run_append hcs h.first
    by_cases hnil : rest = []
    · exact ⟨[w], by simpa only [hnil, List.append_nil] using .one hw⟩
    have hgap : Run isBlank (rest.takeWhile isBlank) := by
      refine ⟨?_, blanks_takeWhile rest⟩
      obtain ⟨c, rest, rfl⟩ := List.exists_cons_of_ne_nil hnil
      rw [List.takeWhile_cons_of_pos (hrest c rfl)]
      exact List.cons_ne_nil _ _
    have hsplit := List.takeWhile_append_dropWhile (p := isBlank) (l := rest)
    have hlast : ∀ c ∈ rest.getLast?, isBlank c = false := by
      intro c hc
      refine h.last c ?_
      rw [List.getLast?_append, Option.mem_def.mp hc]
      rfl
    have hmore : rest.dropWhile isBlank ≠ [] := by
      intro hdrop
      rw [List.dropWhile_eq_nil_iff] at hdrop
      have hmem := List.getLast_mem hnil
      have hfalse := hlast _ (List.getLast?_eq_some_getLast hnil)
      rw [hdrop _ hmem] at hfalse
      cases hfalse
    have htight : Tight (rest.dropWhile isBlank) := by
      refine ⟨head?_dropWhile rest, fun c hc ↦ hlast c ?_⟩
      rw [← hsplit, List.getLast?_append, Option.mem_def.mp hc]
      rfl
    have hlt : (rest.dropWhile isBlank).length < n := by
      have hpos := List.length_pos_iff.mpr hw.1
      have hle := List.IsSuffix.length_le (List.dropWhile_suffix isBlank (l := rest))
      rw [List.length_append] at hn
      omega
    obtain ⟨ws, hws⟩ := ih _ hlt htight rfl
    rcases ws with _ | ⟨v, ws⟩
    · exact absurd (spaced_nil_iff.mp hws) hmore
    · refine ⟨w :: v :: ws, ?_⟩
      rw [← hsplit, ← List.append_assoc]
      exact .cons hw hgap hws

/-- **A trimmed line consists of its words, and of no others.** -/
theorem words_eq_iff {line : List Char} {ws : List (List Char)} :
    words line = ws ↔ Spaced ws (trim line) := by
  obtain ⟨htight, lead, trail, hlead, htrail, heq⟩ := trimmed_trim line
  have hwords : ∀ {vs}, Spaced vs (trim line) → words line = vs := by
    intro vs h
    rw [heq, List.append_assoc, words_append_of_blanks hlead, h.words_append htrail]
  constructor
  · rintro rfl
    obtain ⟨vs, hvs⟩ := htight.exists_spaced
    rwa [hwords hvs]
  · exact hwords

theorem words_eq_nil_iff {line : List Char} : words line = [] ↔ trim line = [] := by
  rw [words_eq_iff, spaced_nil_iff]

/-! ## Classes without blanks -/

/-- The digits of every script keep clear of the blanks. -/
theorem digitZeros_clear :
    ∀ z ∈ digitZeros, 0x20 < z ∧ (z + 10 ≤ 0x85 ∨ 0xA0 < z) ∧ (z + 10 ≤ 0x1680 ∨ 0x1680 < z) ∧
      (z + 10 ≤ 0x2000 ∨ 0x205F < z) ∧ (z + 10 ≤ 0x3000 ∨ 0x3000 < z) := by
  decide

theorem isBlank_eq_false_iff {c : Char} :
    isBlank c = false ↔
      (c.toNat < 0x09 ∨ 0x0D < c.toNat) ∧ c.toNat ≠ 0x20 ∧ c.toNat ≠ 0x85 ∧ c.toNat ≠ 0xA0 ∧
        c.toNat ≠ 0x1680 ∧ (c.toNat < 0x2000 ∨ 0x200A < c.toNat) ∧ c.toNat ≠ 0x2028 ∧
        c.toNat ≠ 0x2029 ∧ c.toNat ≠ 0x202F ∧ c.toNat ≠ 0x205F ∧ c.toNat ≠ 0x3000 := by
  simp only [isBlank, Bool.or_eq_false_iff, Bool.and_eq_false_iff, decide_eq_false_iff_not,
    beq_eq_false_iff_ne, Nat.not_le, and_assoc]

theorem isBlank_of_isDecimalDigit {c : Char} (h : isDecimalDigit c = true) : isBlank c = false := by
  obtain ⟨z, hz, hc⟩ := List.any_eq_true.mp h
  have hclear := digitZeros_clear z hz
  simp only [Bool.and_eq_true, decide_eq_true_eq] at hc
  rw [isBlank_eq_false_iff]
  omega

theorem isBlank_of_isAlpha {c : Char} (h : c.isAlpha = true) : isBlank c = false := by
  have h : (decide ('A'.val ≤ c.val ∧ c.val ≤ 'Z'.val) ||
      decide ('a'.val ≤ c.val) && decide (c.val ≤ 'z'.val)) = true := h
  simp only [Bool.or_eq_true, Bool.and_eq_true, decide_eq_true_eq, UInt32.le_iff_toNat_le] at h
  have hval : c.val.toNat = c.toNat := rfl
  have hA : ('A' : Char).val.toNat = 65 := rfl
  have hZ : ('Z' : Char).val.toNat = 90 := rfl
  have ha : ('a' : Char).val.toNat = 97 := rfl
  have hz : ('z' : Char).val.toNat = 122 := rfl
  rw [isBlank_eq_false_iff]
  omega

end Unjump.Text
