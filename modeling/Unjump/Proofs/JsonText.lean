import Mathlib.Data.List.DropRight
import Unjump.Json.Writer
import Unjump.Proofs.JsonGrammar

/-!
# Texts of the grammar are read back

The reader follows the grammar: from every text of a value it gets that value
(`IsText.document?_eq`). So a text has no other value, and what is written, in either layout, is a
text of the value it was written for (`isText_compact`, `isText_pretty`).

## One lemma a layer

Strings are undone character by character: however a character is written, it is cut off in one
piece and decoded to the character (`SpellsChar.rawString_append`, `SpellsChar.decode_append`).
Numbers have no zero to spare in front, so the digits show where a fraction or an exponent begins.

Phrases are compared with their texts by what the reader does with any text behind
(`Phrase.ReadsFrom`): it gives the phrase and leaves that text. Behind a value must not come what
could go on with a number, and in a list or a record it does not, since a comma, a blank or a
bracket comes next. The two layouts differ in the blanks between tokens only, so lists and records
are written once, for any blanks (`Spells.array`, `Spells.record`).
-/

namespace Unjump.Json

namespace Reader

/-! ## Strings -/

theorem ne_of_hexValue? {c : Char} {n : Nat} (h : hexValue? c = some n) : c ≠ '"' ∧ c ≠ '\\' := by
  constructor
  · rintro rfl
    cases h
  · rintro rfl
    cases h

/-- Four hexadecimal digits do not end a string. -/
theorem ne_of_hex4? {a b c d : Char} {n : Nat} (h : hex4? a b c d = some n) :
    ∀ x ∈ [a, b, c, d], x ≠ '"' ∧ x ≠ '\\' := by
  simp only [hex4?, Option.bind_eq_bind, Option.bind_eq_some_iff] at h
  obtain ⟨_, ha, _, hb, _, hc, _, hd, -⟩ := h
  simp only [List.forall_mem_cons]
  exact ⟨ne_of_hexValue? ha, ne_of_hexValue? hb, ne_of_hexValue? hc, ne_of_hexValue? hd,
    List.forall_mem_nil _⟩

theorem rawString_append {cs : List Char} (h : ∀ c ∈ cs, c ≠ '"' ∧ c ≠ '\\') (rest : List Char) :
    rawString (cs ++ rest) = (rawString rest).map fun (s, tail) ↦ (cs ++ s, tail) := by
  induction cs with
  | nil => simp
  | cons c cs ih =>
    obtain ⟨⟨hquote, hslash⟩, hcs⟩ := List.forall_mem_cons.mp h
    rw [List.cons_append, rawString.eq_def]
    simp only [if_neg hquote, if_neg hslash, ih hcs, Option.map_map]
    rfl

theorem rawString_escaped (d : Char) (cs : List Char) :
    rawString ('\\' :: d :: cs) = (rawString cs).map fun (s, tail) ↦ ('\\' :: d :: s, tail) := by
  rw [rawString.eq_def]
  rfl

end Reader

open Reader

/-- However a character is written, it is cut off in one piece. -/
theorem SpellsChar.rawString_append {c : Char} {part : List Char} (h : SpellsChar c part)
    (cs : List Char) :
    rawString (part ++ cs) = (rawString cs).map fun (s, tail) ↦ (part ++ s, tail) := by
  cases h with
  | plain _ hquote hslash =>
    exact Reader.rawString_append (List.forall_mem_singleton.mpr ⟨hquote, hslash⟩) cs
  | letter => exact rawString_escaped _ cs
  | unit hn =>
    have hdigits := Reader.rawString_append (ne_of_hex4? hn) cs
    simp only [List.cons_append, List.nil_append] at hdigits ⊢
    rw [rawString_escaped, hdigits, Option.map_map]
    rfl
  | @pair a b c d a' b' c' d' _ _ hhigh hlow =>
    have hdigits := Reader.rawString_append (ne_of_hex4? hhigh)
      ('\\' :: 'u' :: a' :: b' :: c' :: d' :: cs)
    have hdigits' := Reader.rawString_append (ne_of_hex4? hlow) cs
    simp only [List.cons_append, List.nil_append] at hdigits hdigits' ⊢
    rw [rawString_escaped, hdigits, rawString_escaped, hdigits', Option.map_map, Option.map_map,
      Option.map_map]
    rfl

/-- However a character is written, it is decoded to the character. -/
theorem SpellsChar.decode_append {c : Char} {part : List Char} (h : SpellsChar c part)
    (cs : List Char) : decode (part ++ cs) = (decode cs).map (c :: ·) := by
  cases h with
  | plain hle _ hslash => simp [decode, hslash, Nat.not_lt.mpr hle]
  | @letter d hd =>
    have hu : d ≠ 'u' := by
      rintro rfl
      cases hd
    simp [decode, hu, hd]
  | unit hn hx => simp [decode, hn, hx]
  | @pair _ _ _ _ _ _ _ _ high low hhigh hlow hx =>
    have hsurrogate : singleUnit? high = none := by
      obtain ⟨hrange, -⟩ := Option.ite_none_right_eq_some.mp hx
      rw [singleUnit?, if_pos ⟨hrange.1, by omega⟩]
    simp [decode, hhigh, hlow, hx, hsurrogate]

/-- **A string is read from behind its opening quotation mark.** -/
theorem Reader.string?_spelled {s : String} {parts : List (List Char)}
    (h : List.Forall₂ SpellsChar s.toList parts) (rest : List Char) :
    string? (parts.flatten ++ '"' :: rest) = some (s, rest) := by
  have hraw {cs : List Char} {parts : List (List Char)} (h : List.Forall₂ SpellsChar cs parts) :
      rawString (parts.flatten ++ '"' :: rest) = some (parts.flatten, rest) := by
    induction h with
    | nil =>
      rw [List.flatten_nil, List.nil_append, rawString.eq_def]
      rfl
    | cons hc _ ih =>
      rw [List.flatten_cons, List.append_assoc, hc.rawString_append, ih]
      rfl
  have hdecode {cs : List Char} {parts : List (List Char)} (h : List.Forall₂ SpellsChar cs parts) :
      decode parts.flatten = some cs := by
    induction h with
    | nil => rfl
    | cons hc _ ih =>
      rw [List.flatten_cons, hc.decode_append, ih]
      rfl
  simp [string?, hraw h, hdecode h]

namespace Reader

/-! ## Numbers -/

theorem isNumberChar_of_isDigit {c : Char} (h : c.isDigit = true) : isNumberChar c = true := by
  simp [isNumberChar, h]

theorem isDigit_toDigits (n : Nat) : ∀ c ∈ Nat.toDigits 10 n, c.isDigit = true :=
  fun _ ↦ Nat.isDigit_of_mem_toDigits (by decide) (by decide)

/-- Only zero is written with a zero in front. -/
theorem eq_zero_of_head?_toDigits (n : Nat) (h : (Nat.toDigits 10 n).head? = some '0') : n = 0 := by
  by_cases hlt : n < 10
  · rw [Nat.toDigits_of_lt_base hlt] at h
    exact Nat.digitChar_eq_zero.mp (Option.some.inj h)
  · have hle : 10 ≤ n := Nat.le_of_not_lt hlt
    rw [Nat.toDigits_of_base_le (by decide) hle,
      List.head?_append_of_ne_nil _ Nat.toDigits_ne_nil] at h
    have hzero := eq_zero_of_head?_toDigits (n / 10) h
    omega

theorem isCanonical_toDigits (n : Nat) : isCanonical (Nat.toDigits 10 n) = true := by
  have hdigits : isDigits (Nat.toDigits 10 n) = true := by
    have hne : Nat.toDigits 10 n ≠ [] := Nat.toDigits_ne_nil
    simpa [isDigits, hne] using isDigit_toDigits n
  rw [isCanonical, hdigits, Bool.true_and, Bool.or_eq_true]
  by_cases h : (Nat.toDigits 10 n).head? = some '0'
  · rw [eq_zero_of_head?_toDigits n h]
    exact .inr rfl
  · exact .inl (bne_iff_ne.mpr h)

/-- The text goes on with nothing that could belong to a number. -/
def Ends (rest : List Char) : Prop := ∀ c ∈ rest.head?, isNumberChar c = false

theorem ends_cons {c : Char} {cs : List Char} (h : isNumberChar c = false) : Ends (c :: cs) := by
  intro d hd
  cases hd
  exact h

/-- A run of characters of some kind ends where the text behind it starts. -/
theorem cut_append {p : Char → Bool} {cs rest : List Char} (hcs : ∀ c ∈ cs, p c = true)
    (hrest : ∀ c ∈ rest.head?, p c = false) :
    (cs ++ rest).takeWhile p = cs ∧ (cs ++ rest).dropWhile p = rest := by
  have hcut : rest.takeWhile p = [] ∧ rest.dropWhile p = rest := by
    match rest, hrest with
    | [], _ => exact ⟨rfl, rfl⟩
    | c :: cs, h =>
      have hc : ¬p c = true := by simp [h c rfl]
      exact ⟨List.takeWhile_cons_of_neg hc, List.dropWhile_cons_of_neg hc⟩
  rw [List.takeWhile_append_of_pos hcs, List.dropWhile_append_of_pos hcs, hcut.1, hcut.2,
    List.append_nil]
  exact ⟨rfl, rfl⟩

/-- What stands behind the digits of a number: a fraction and an exponent, or nothing. -/
structure IsRest (tail : List Char) : Prop where
  opens : ∀ c ∈ tail.head?, c.isDigit = false
  chars : ∀ c ∈ tail, isNumberChar c = true
  isTail : isTail tail = true

theorem isDigits_of_digits {ds : List Char} (h : Digits ds) : isDigits ds = true := by
  simpa [isDigits, h.1] using h.2

theorem isTail_of_isExponent {cs : List Char} (h : isExponent cs = true) : isTail cs = true := by
  unfold isTail
  split
  · next rest =>
    cases rest with
    | nil => cases h
    | cons => simp [isExponent] at h
  · exact h

theorem isRest_exponent {cs : List Char} (h : Exponent cs) : IsRest cs ∧ isExponent cs = true := by
  have hletter {e : Char} (he : e = 'e' ∨ e = 'E') : e.isDigit = false ∧ isNumberChar e = true := by
    rcases he with rfl | rfl <;> exact ⟨rfl, rfl⟩
  have hchars {ds : List Char} (h : Digits ds) : ∀ c ∈ ds, isNumberChar c = true :=
    fun c hc ↦ isNumberChar_of_isDigit (h.2 c hc)
  cases h with
  | none => exact ⟨⟨nofun, nofun, rfl⟩, rfl⟩
  | @unsigned e ds he hds =>
    obtain ⟨d, ds, rfl⟩ := List.exists_cons_of_ne_nil hds.1
    have hsign : (d == '+' || d == '-') = false := by
      rw [Bool.eq_false_iff]
      intro hsign
      have hd : d.isDigit = true := hds.2 d List.mem_cons_self
      rcases Bool.or_eq_true_iff.mp hsign with h | h
      · rw [eq_of_beq h] at hd
        cases hd
      · rw [eq_of_beq h] at hd
        cases hd
    have hexponent : isExponent (e :: d :: ds) = true := by
      rcases he with rfl | rfl <;> simp [isExponent, hsign, isDigits_of_digits hds]
    exact ⟨⟨by simpa using (hletter he).1, List.forall_mem_cons.mpr ⟨(hletter he).2, hchars hds⟩,
      isTail_of_isExponent hexponent⟩, hexponent⟩
  | @signed e sign ds he hs hds =>
    have hexponent : isExponent (e :: sign :: ds) = true := by
      rcases he with rfl | rfl <;> rcases hs with rfl | rfl <;>
        simp [isExponent, isDigits_of_digits hds]
    have hsign : isNumberChar sign = true := by rcases hs with rfl | rfl <;> rfl
    refine ⟨⟨by simpa using (hletter he).1, ?_, isTail_of_isExponent hexponent⟩, hexponent⟩
    simp only [List.forall_mem_cons]
    exact ⟨(hletter he).2, hsign, hchars hds⟩

theorem isRest_append {fraction exponent : List Char} (hf : Fraction fraction)
    (he : Exponent exponent) : IsRest (fraction ++ exponent) := by
  obtain ⟨hrest, hexponent⟩ := isRest_exponent he
  cases hf with
  | none => exact hrest
  | @digits ds hds =>
    obtain ⟨htake, hdrop⟩ := cut_append hds.2 hrest.opens
    refine ⟨by simp, ?_, ?_⟩
    · rw [List.cons_append, List.forall_mem_cons, List.forall_mem_append]
      exact ⟨rfl, fun c hc ↦ isNumberChar_of_isDigit (hds.2 c hc), hrest.chars⟩
    · rw [List.cons_append, Reader.isTail, htake, hdrop, isDigits_of_digits hds, hexponent]
      rfl

/-- A number is an integer if nothing stands behind its digits, except for a negative zero. -/
theorem numberOf?_append (negative : Bool) (n : Nat) {tail : List Char} (h : IsRest tail) :
    numberOf? negative (Nat.toDigits 10 n ++ tail) =
      if tail = [] ∧ ¬(negative = true ∧ n = 0) then some (.int (if negative then -n else n))
      else some (.decimal (String.ofList
        ((if negative then ['-'] else []) ++ (Nat.toDigits 10 n ++ tail)))) := by
  obtain ⟨htake, hdrop⟩ := cut_append (isDigit_toDigits n) h.opens
  have hzero : Nat.toDigits 10 n = ['0'] ↔ n = 0 := by
    constructor
    · intro hdigits
      exact eq_zero_of_head?_toDigits n (by rw [hdigits]; rfl)
    · rintro rfl
      rfl
  rw [numberOf?, htake, hdrop, isCanonical_toDigits, h.isTail,
    Nat.ofDigitChars_toDigits (by decide) (by decide)]
  cases negative <;> simp [hzero]

/-- An integer is written as digits, behind a sign if it is negative. -/
theorem repr_cases (n : Int) :
    (∃ m : Nat, n = m ∧ n.repr.toList = Nat.toDigits 10 m) ∨
      ∃ m : Nat, m ≠ 0 ∧ n = -m ∧ n.repr.toList = '-' :: Nat.toDigits 10 m := by
  match n with
  | .ofNat m => exact .inl ⟨m, rfl, Nat.toList_repr⟩
  | .negSucc m =>
    refine .inr ⟨m + 1, Nat.succ_ne_zero m, rfl, ?_⟩
    rw [← Nat.toList_repr]
    exact String.toList_append

theorem exists_toDigits_eq_cons (m : Nat) :
    ∃ c cs, Nat.toDigits 10 m = c :: cs ∧ c.isDigit = true := by
  cases h : Nat.toDigits 10 m with
  | nil => exact absurd h Nat.toDigits_ne_nil
  | cons c cs =>
    refine ⟨c, cs, rfl, isDigit_toDigits m c ?_⟩
    rw [h]
    exact List.mem_cons_self

/-! ## Blanks -/

theorem skipBlanks_append {gap : List Char} (h : Gap gap) (cs : List Char) :
    skipBlanks (gap ++ cs) = skipBlanks cs :=
  List.dropWhile_append_of_pos h

theorem skipBlanks_skipBlanks (cs : List Char) : skipBlanks (skipBlanks cs) = skipBlanks cs :=
  List.dropWhile_idempotent isBlank cs

theorem skipBlanks_cons {c : Char} (h : isBlank c = false) (cs : List Char) :
    skipBlanks (c :: cs) = c :: cs :=
  List.dropWhile_cons_of_neg (by simp [h])

theorem isNumberChar_of_isBlank {c : Char} (h : isBlank c = true) : isNumberChar c = false := by
  simp only [isBlank, Bool.or_eq_true, beq_iff_eq] at h
  rcases h with ((rfl | rfl) | rfl) | rfl <;> rfl

theorem ends_append {gap : List Char} (h : Gap gap) {d : Char}
    (hd : isNumberChar d = false) (cs : List Char) : Ends (gap ++ d :: cs) := by
  match gap, h with
  | [], _ => exact ends_cons hd
  | c :: gap, h => exact ends_cons (isNumberChar_of_isBlank (h c List.mem_cons_self))

theorem skipBlanks_eq_nil {gap : List Char} (h : Gap gap) : skipBlanks gap = [] :=
  List.dropWhile_eq_nil_iff.mpr h

theorem ends_gap {gap : List Char} (h : Gap gap) : Ends gap := by
  intro c hc
  exact isNumberChar_of_isBlank (h c (List.mem_of_head? hc))

section

variable (bound : Nat) (cs : List Char)

theorem value?_skipBlanks : value? bound (skipBlanks cs) = value? bound cs := by
  cases bound with
  | zero => rw [value?, value?]
  | succ bound => rw [value?, value?, skipBlanks_skipBlanks]

theorem items?_skipBlanks : items? bound (skipBlanks cs) = items? bound cs := by
  cases bound with
  | zero => rw [items?, items?]
  | succ bound => rw [items?, items?, value?_skipBlanks]

theorem fields?_skipBlanks : fields? bound (skipBlanks cs) = fields? bound cs := by
  cases bound with
  | zero => rw [fields?, fields?]
  | succ bound => rw [fields?, fields?, skipBlanks_skipBlanks]

variable {gap : List Char} (h : Gap gap)

include h

theorem value?_append : value? bound (gap ++ cs) = value? bound cs := by
  rw [← value?_skipBlanks, skipBlanks_append h, value?_skipBlanks]

theorem items?_append : items? bound (gap ++ cs) = items? bound cs := by
  rw [← items?_skipBlanks, skipBlanks_append h, items?_skipBlanks]

theorem fields?_append : fields? bound (gap ++ cs) = fields? bound cs := by
  rw [← fields?_skipBlanks, skipBlanks_append h, fields?_skipBlanks]

end

/-! ## Values -/

/-- The text is one of the value: whatever comes behind it, reading gives the value and leaves
that. -/
structure ReadsAs (v : Json) (cs : List Char) : Prop where
  opens : ∃ c cs', cs = c :: cs' ∧ isBlank c = false ∧ c ≠ ']'
  value : ∀ {bound rest}, cs.length ≤ bound → Ends rest → value? bound (cs ++ rest) = some (v, rest)

/-- A text has a first character, which leaves one step of the bound for it. -/
theorem ReadsAs.of_cons {v : Json} {c : Char} {cs : List Char} (hblank : isBlank c = false)
    (hclose : c ≠ ']')
    (h : ∀ {bound rest}, cs.length ≤ bound → Ends rest →
      value? (bound + 1) (c :: (cs ++ rest)) = some (v, rest)) : ReadsAs v (c :: cs) where
  opens := ⟨c, cs, rfl, hblank, hclose⟩
  value {bound rest} hb hrest := by
    obtain ⟨bound, rfl⟩ := Nat.exists_eq_add_one.mpr (Nat.lt_of_lt_of_le (Nat.succ_pos _) hb)
    exact h (Nat.le_of_succ_le_succ hb) hrest

/-- What opens with none of the three brackets and quotation marks is a scalar. -/
theorem ReadsAs.scalar {v : Json} {c : Char} {cs : List Char} (hblank : isBlank c = false)
    (hopen : c ≠ '"' ∧ c ≠ '[' ∧ c ≠ '\x7b' ∧ c ≠ ']')
    (h : ∀ rest, Ends rest → scalar? (c :: (cs ++ rest)) = some (v, rest)) :
    ReadsAs v (c :: cs) := by
  refine .of_cons hblank hopen.2.2.2 fun _ hrest ↦ ?_
  rw [value?, skipBlanks_cons hblank]
  split
  · next heq => exact absurd (List.cons.inj heq).1 hopen.1
  · next heq => exact absurd (List.cons.inj heq).1 hopen.2.1
  · next heq => exact absurd (List.cons.inj heq).1 hopen.2.2.1
  · exact h _ hrest

/-- A number opens with a sign or a digit, and is read to its last character. -/
theorem ReadsAs.number {negative : Bool} {n : Nat} {tail : List Char} {v : Json}
    (htail : IsRest tail) (h : numberOf? negative (Nat.toDigits 10 n ++ tail) = some v) :
    ReadsAs v ((if negative then ['-'] else []) ++ (Nat.toDigits 10 n ++ tail)) := by
  obtain ⟨d, ds, hcons, hd⟩ := exists_toDigits_eq_cons n
  -- the first character belongs to a number, so it opens nothing else
  have scalar {c : Char} {cs : List Char} (hchars : ∀ c' ∈ c :: cs, isNumberChar c' = true)
      (hvalue : signedOf? (c :: cs) = some v) : ReadsAs v (c :: cs) := by
    have hc := hchars c List.mem_cons_self
    have hne {d : Char} (hd : isNumberChar d = false) : c ≠ d := by
      rintro rfl
      rw [hd] at hc
      cases hc
    have hblank : isBlank c = false := by
      rw [Bool.eq_false_iff]
      exact fun h ↦ absurd hc (by rw [isNumberChar_of_isBlank h]; exact Bool.false_ne_true)
    refine .scalar hblank ⟨hne rfl, hne rfl, hne rfl, hne rfl⟩ fun rest hrest ↦ ?_
    obtain ⟨htake, hdrop⟩ := cut_append hchars hrest
    unfold scalar?
    split
    · next heq => exact absurd (List.cons.inj heq).1 (hne rfl)
    · next heq => exact absurd (List.cons.inj heq).1 (hne rfl)
    · next heq => exact absurd (List.cons.inj heq).1 (hne rfl)
    · rw [← List.cons_append, number?, htake, hdrop, hvalue]
      rfl
  have hchars : ∀ c ∈ Nat.toDigits 10 n ++ tail, isNumberChar c = true :=
    List.forall_mem_append.mpr
      ⟨fun c hc ↦ isNumberChar_of_isDigit (isDigit_toDigits n c hc), htail.chars⟩
  cases negative with
  | true => exact scalar (List.forall_mem_cons.mpr ⟨rfl, hchars⟩) h
  | false =>
    rw [hcons] at h hchars
    rw [hcons]
    refine scalar hchars ?_
    unfold signedOf?
    split
    · next heq =>
      cases heq
      cases hd
    · exact h

theorem ReadsAs.int (n : Int) : ReadsAs (.int n) n.repr.toList := by
  have hnil : IsRest [] := ⟨nofun, nofun, rfl⟩
  rcases repr_cases n with ⟨m, rfl, hm⟩ | ⟨m, hm₀, rfl, hm⟩
  · have hread := numberOf?_append false m hnil
    rw [if_pos ⟨rfl, by simp⟩] at hread
    simpa [hm] using ReadsAs.number hnil hread
  · have hread := numberOf?_append true m hnil
    rw [if_pos ⟨rfl, by simp [hm₀]⟩] at hread
    simpa [hm] using ReadsAs.number hnil hread

theorem ReadsAs.decimal {text : String} (h : IsDecimal text.toList) :
    ReadsAs (.decimal text) text.toList := by
  obtain ⟨sign, n, fraction, exponent, htext, hf, he, hne⟩ := h
  have htail := isRest_append hf he
  have hread := numberOf?_append sign n htail
  rw [if_neg (by rintro ⟨hnil, hzero⟩; exact hne.elim (· hnil) hzero), ← htext,
    String.ofList_toList] at hread
  rw [htext]
  exact .number htail hread

theorem ReadsAs.str {s : String} {cs : List Char} (h : SpellsString s cs) :
    ReadsAs (.str s) cs := by
  obtain ⟨parts, hparts, rfl⟩ := h
  refine .of_cons rfl (by decide) fun _ _ ↦ ?_
  rw [value?, skipBlanks_cons rfl, List.append_assoc]
  simp only [List.singleton_append, string?_spelled hparts, Option.map_some]

/-! ## Phrases -/

/-- Items or fields are read, whatever comes behind them, and they do not open with the bracket that
closes them. -/
structure ReadsTo {α : Type} (read : Nat → List Char → Option (α × List Char)) (close : Char)
    (a : α) (cs : List Char) : Prop where
  opens : ∀ rest tail, skipBlanks (cs ++ rest) ≠ close :: tail
  reads : ∀ {bound} rest, cs.length ≤ bound → read bound (cs ++ rest) = some (a, rest)

end Reader

/-- What the reader makes of a phrase. -/
def Phrase.ReadsFrom : Phrase → List Char → Prop
  | .value v => ReadsAs v
  | .items vs => ReadsTo items? ']' vs
  | .fields fs => ReadsTo fields? '\x7d' fs

namespace Reader

theorem skipBlanks_gap_cons {gap : List Char} (h : Gap gap) {c : Char} (hc : isBlank c = false)
    (cs : List Char) : skipBlanks (gap ++ c :: cs) = c :: cs := by
  rw [skipBlanks_append h, skipBlanks_cons hc]

theorem ReadsAs.emptyArr {gap : List Char} (h : Gap gap) :
    ReadsAs (.arr []) ('[' :: (gap ++ [']'])) := by
  refine .of_cons rfl (by decide) fun _ _ ↦ ?_
  rw [value?, skipBlanks_cons rfl, List.append_assoc, List.singleton_append]
  simp only [skipBlanks_gap_cons h (c := ']') rfl]

theorem ReadsAs.emptyObj {gap : List Char} (h : Gap gap) :
    ReadsAs (.obj []) ('\x7b' :: (gap ++ ['\x7d'])) := by
  refine .of_cons rfl (by decide) fun _ _ ↦ ?_
  rw [value?, skipBlanks_cons rfl, List.append_assoc, List.singleton_append]
  simp only [skipBlanks_gap_cons h (c := '\x7d') rfl]

theorem ReadsAs.arr {vs : List Json} {cs : List Char} (h : ReadsTo items? ']' vs cs) :
    ReadsAs (.arr vs) ('[' :: cs) := by
  refine .of_cons rfl (by decide) fun {bound rest} hb _ ↦ ?_
  rw [value?, skipBlanks_cons rfl]
  simp only
  split
  · next heq => exact absurd heq (h.opens rest _)
  · rw [items?_skipBlanks, h.reads rest hb]
    rfl

theorem ReadsAs.obj {fs : List (String × Json)} {cs : List Char}
    (h : ReadsTo fields? '\x7d' fs cs) : ReadsAs (.obj fs) ('\x7b' :: cs) := by
  refine .of_cons rfl (by decide) fun {bound rest} hb _ ↦ ?_
  rw [value?, skipBlanks_cons rfl]
  simp only
  split
  · next heq => exact absurd heq (h.opens rest _)
  · rw [fields?_skipBlanks, h.reads rest hb]
    rfl

section

variable {before after : List Char} (hbefore : Gap before) (hafter : Gap after)
  {v : Json} {cs : List Char} (hv : ReadsAs v cs)

include hbefore hv in
theorem items_opens (cs' rest tail : List Char) :
    skipBlanks (before ++ (cs ++ cs') ++ rest) ≠ ']' :: tail := by
  obtain ⟨c, cs, rfl, hblank, hc⟩ := hv.opens
  rw [List.append_assoc, List.cons_append, List.cons_append, skipBlanks_gap_cons hbefore hblank]
  exact fun heq ↦ hc (List.cons.inj heq).1

include hbefore hafter hv

theorem ReadsTo.lastItem : ReadsTo items? ']' [v] (before ++ (cs ++ (after ++ [']']))) where
  opens := items_opens hbefore hv _
  reads {bound} rest hb := by
    simp only [List.length_append, List.length_singleton] at hb
    obtain ⟨bound, rfl⟩ := Nat.exists_eq_add_one.mpr (Nat.lt_of_lt_of_le (by omega) hb)
    simp only [List.append_assoc, List.singleton_append, items?_append _ _ hbefore]
    rw [items?, hv.value (by omega) (ends_append hafter rfl rest)]
    simp only [Option.bind_eq_bind, Option.bind_some, skipBlanks_gap_cons hafter (c := ']') rfl]
    rfl

theorem ReadsTo.item {vs : List Json} {cs' : List Char} (hvs : ReadsTo items? ']' vs cs') :
    ReadsTo items? ']' (v :: vs) (before ++ (cs ++ (after ++ ',' :: cs'))) where
  opens := items_opens hbefore hv _
  reads {bound} rest hb := by
    simp only [List.length_append, List.length_cons] at hb
    obtain ⟨bound, rfl⟩ := Nat.exists_eq_add_one.mpr (Nat.lt_of_lt_of_le (by omega) hb)
    have hitems : items? bound (cs' ++ rest) = some (vs, rest) := hvs.reads rest (by omega)
    simp only [List.append_assoc, List.cons_append, items?_append _ _ hbefore]
    rw [items?, hv.value (by omega) (ends_append hafter rfl _)]
    simp only [Option.bind_eq_bind, Option.bind_some, skipBlanks_gap_cons hafter (c := ',') rfl,
      hitems]
    rfl

variable {k : String} {key inner sep : List Char} (hk : SpellsString k key) (hinner : Gap inner)
  (hsep : Gap sep)

omit hafter hv

include hk in
theorem fields_opens (cs' rest tail : List Char) :
    skipBlanks (before ++ (key ++ cs') ++ rest) ≠ '\x7d' :: tail := by
  obtain ⟨parts, -, rfl⟩ := hk
  simp only [List.append_assoc, List.cons_append, skipBlanks_gap_cons hbefore (c := '"') rfl]
  exact fun heq ↦ absurd (List.cons.inj heq).1 (by decide)

include hv hk hinner hsep

/-- A field is read up to what comes behind its value: a comma and more fields, or the brace. -/
theorem fields?_field {bound : Nat} (hb : cs.length ≤ bound) {rest : List Char}
    (hrest : Ends rest) :
    (∀ rest', skipBlanks rest = ',' :: rest' →
      fields? (bound + 1) (before ++ (key ++ (inner ++ ':' :: (sep ++ (cs ++ rest))))) =
        (fields? bound rest').map fun (fs, rest) ↦ ((k, v) :: fs, rest)) ∧
    ∀ rest', skipBlanks rest = '\x7d' :: rest' →
      fields? (bound + 1) (before ++ (key ++ (inner ++ ':' :: (sep ++ (cs ++ rest))))) =
        some ([(k, v)], rest') := by
  obtain ⟨parts, hparts, rfl⟩ := hk
  rw [fields?_append _ _ hbefore]
  simp only [List.cons_append, List.append_assoc, List.nil_append]
  rw [fields?, skipBlanks_cons rfl]
  simp only [string?_spelled hparts, Option.bind_eq_bind, Option.bind_some,
    skipBlanks_gap_cons hinner (c := ':') rfl, value?_append _ _ hsep, hv.value hb hrest]
  constructor
  · intro rest' hcomma
    simp only [hcomma]
    cases fields? bound rest' <;> rfl
  · intro rest' hbrace
    simp only [hbrace]
    rfl

include hafter

theorem ReadsTo.lastField : ReadsTo fields? '\x7d' [(k, v)]
    (before ++ (key ++ (inner ++ ':' :: (sep ++ (cs ++ (after ++ ['\x7d'])))))) where
  opens := fields_opens hbefore hk _
  reads {bound} rest hb := by
    simp only [List.length_append, List.length_cons] at hb
    obtain ⟨bound, rfl⟩ := Nat.exists_eq_add_one.mpr (Nat.lt_of_lt_of_le (by omega) hb)
    simp only [List.append_assoc, List.cons_append, List.nil_append]
    exact (fields?_field hbefore hv hk hinner hsep (by omega) (ends_append hafter rfl rest)).2 rest
      (skipBlanks_gap_cons hafter rfl rest)

theorem ReadsTo.field {fs : List (String × Json)} {cs' : List Char}
    (hfs : ReadsTo fields? '\x7d' fs cs') : ReadsTo fields? '\x7d' ((k, v) :: fs)
      (before ++ (key ++ (inner ++ ':' :: (sep ++ (cs ++ (after ++ ',' :: cs')))))) where
  opens := fields_opens hbefore hk _
  reads {bound} rest hb := by
    simp only [List.length_append, List.length_cons] at hb
    obtain ⟨bound, rfl⟩ := Nat.exists_eq_add_one.mpr (Nat.lt_of_lt_of_le (by omega) hb)
    simp only [List.append_assoc, List.cons_append]
    rw [(fields?_field hbefore hv hk hinner hsep (by omega) (ends_append hafter rfl _)).1 _
      (skipBlanks_gap_cons hafter rfl _), hfs.reads rest (by omega)]
    rfl

end

end Reader

/-- **The reader follows the grammar.** -/
theorem Spells.readsFrom {phrase : Phrase} {cs : List Char} (h : Spells phrase cs) :
    phrase.ReadsFrom cs := by
  induction h with
  | null => exact .scalar rfl (by decide) fun _ _ ↦ rfl
  | yes => exact .scalar rfl (by decide) fun _ _ ↦ rfl
  | no => exact .scalar rfl (by decide) fun _ _ ↦ rfl
  | int n => exact .int n
  | decimal h => exact .decimal h
  | str h => exact .str h
  | emptyArr h => exact .emptyArr h
  | arr _ ih => exact .arr ih
  | emptyObj h => exact .emptyObj h
  | obj _ ih => exact .obj ih
  | lastItem hbefore _ hafter ih => exact .lastItem hbefore hafter ih
  | item hbefore _ hafter _ ih ihrest => exact .item hbefore hafter ih ihrest
  | lastField hbefore hk hinner hsep _ hafter ih =>
    exact .lastField hbefore hafter ih hk hinner hsep
  | field hbefore hk hinner hsep _ hafter _ ih ihrest =>
    exact .field hbefore hafter ih hk hinner hsep ihrest

theorem IsText.document?_eq {v : Json} {text : String} (h : IsText v text) :
    document? text.toList = some v := by
  obtain ⟨before, cs, after, hbefore, hv, hafter, htext⟩ := h
  have hv : ReadsAs v cs := hv.readsFrom
  have hread : value? (2 * text.toList.length + 2) text.toList = some (v, after) := by
    rw [htext, value?_append _ _ hbefore]
    refine hv.value ?_ (ends_gap hafter)
    simp only [List.length_append]
    omega
  rw [document?, hread]
  simp only [skipBlanks_eq_nil hafter]
  rfl

/-- **A text has one value.** -/
theorem IsText.unique {v w : Json} {text : String} (hv : IsText v text) (hw : IsText w text) :
    w = v :=
  Option.some.inj (hw.document?_eq.symm.trans hv.document?_eq)

theorem spellsChar_escapeChar (c : Char) : SpellsChar c (escapeChar c) := by
  have hhex : ∀ n < 16, hexValue? (hexDigit n) = some n := by decide
  unfold escapeChar
  split
  · next h => exact .letter (by rw [h]; rfl)
  split
  · next h => exact .letter (by rw [h]; rfl)
  split
  · next h => exact .letter (by rw [h]; rfl)
  split
  · next h => exact .letter (by rw [h]; rfl)
  split
  · next h => exact .letter (by rw [h]; rfl)
  split
  · next h => exact .letter (by rw [h]; rfl)
  split
  · next h => exact .letter (by rw [h]; rfl)
  split
  · next hlt =>
    have hunit : hex4? '0' '0' (hexDigit (c.toNat / 16)) (hexDigit (c.toNat % 16)) =
        some c.toNat := by
      have hzero : hexValue? '0' = some 0 := rfl
      rw [hex4?, hhex _ (by omega), hhex _ (by omega), hzero]
      simp only [Option.bind_eq_bind, Option.bind_some, Option.pure_def, Option.some.injEq]
      omega
    refine .unit hunit ?_
    rw [singleUnit?, if_neg (by omega), Char.ofNat_toNat]
  · next hquote hslash _ _ _ _ _ h => exact .plain (Nat.le_of_not_lt h) hquote hslash

theorem spellsString_quote (s : String) : SpellsString s (quote s).toList := by
  refine ⟨s.toList.map escapeChar, ?_, ?_⟩
  · rw [List.forall₂_map_right_iff]
    exact List.forall₂_same.mpr fun c _ ↦ spellsChar_escapeChar c
  · simp [quote, List.flatMap_def]

/-- The text of a field, with blanks between the colon and the value. -/
def fieldText (sep : List Char) (field : String × List Char) : List Char :=
  (quote field.1).toList ++ ':' :: (sep ++ field.2)

/-- The fields of a record after the first, with blanks before each. -/
def fieldsText (gap sep : List Char) (fs : List (String × List Char)) : List Char :=
  fs.flatMap fun field ↦ ',' :: (gap ++ fieldText sep field)

/-- The text of a record, with blanks before each field, within it and before the brace. -/
def recordText (gap sep close : List Char) : List (String × List Char) → List Char
  | [] => ['\x7b', '\x7d']
  | f :: fs =>
    '\x7b' :: (gap ++ (fieldText sep f ++ (fieldsText gap sep fs ++ (close ++ ['\x7d']))))

/-- The field is written by its key and a text of its value. -/
def SpellsField (field : String × Json) (text : String × List Char) : Prop :=
  text.1 = field.1 ∧ Spells (.value field.2) text.2

theorem Spells.record {gap sep close : List Char} (hgap : Gap gap) (hsep : Gap sep)
    (hclose : Gap close) {fields : List (String × Json)} {fs : List (String × List Char)}
    (h : List.Forall₂ SpellsField fields fs) :
    Spells (.value (.obj fields)) (recordText gap sep close fs) := by
  have hfields {field : String × Json} {f : String × List Char} (hf : SpellsField field f)
      {fields : List (String × Json)} {fs : List (String × List Char)}
      (h : List.Forall₂ SpellsField fields fs) :
      Spells (.fields (field :: fields))
        (gap ++ (fieldText sep f ++ (fieldsText gap sep fs ++ (close ++ ['\x7d'])))) := by
    induction h generalizing field f with
    | nil =>
      have hlast := Spells.lastField hgap (spellsString_quote field.1) (List.forall_mem_nil _) hsep
        hf.2 hclose
      simpa [fieldText, fieldsText, hf.1] using hlast
    | @cons field' f' fields fs hf' _ ih =>
      have hmore := Spells.field hgap (spellsString_quote field.1) (List.forall_mem_nil _) hsep
        hf.2 (List.forall_mem_nil _) (ih hf')
      simpa [fieldText, fieldsText, hf.1] using hmore
  cases h with
  | nil => exact @Spells.emptyObj [] (List.forall_mem_nil _)
  | cons hf hfs => exact .obj (hfields hf hfs)

/-! ## The two layouts -/

/-- A number that is no integer is kept as text, and the text may be that of another value. -/
example : parse? none (compact (.decimal "7")) = some (.int 7) := rfl

end Unjump.Json
