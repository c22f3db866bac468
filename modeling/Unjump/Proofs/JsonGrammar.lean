import Mathlib.Data.List.Forall2
import Unjump.Json.Reader

/-!
# The grammar of JSON

A value has many texts: blanks may stand between any two tokens, and a character of a string may be
written in several ways. `Json.IsText` relates a value to all of them. It shares with the reader
which characters are blank and what an escape stands for, and nothing else.

Values, the items of an array and the fields of an object need one another. They are the three kinds
of phrases, so that there is one relation (`Json.Spells`) and one induction. Items and fields are
never empty and have the closing bracket behind them; an empty array or object is a value of its
own, and no comma comes before a bracket.

## What readers may refuse

A reader may bound how deep a text nests and how large a number is, and may want the keys of an
object to be distinct. `Json.Portable` values have integers of 64 bits and distinct keys, which
leaves the nesting.
-/

namespace Unjump.Json

open Reader

/-- Blanks, or nothing. -/
def Gap (cs : List Char) : Prop := ∀ c ∈ cs, isBlank c = true

/-! ## Strings -/

/-- The ways to write a character in a string. -/
inductive SpellsChar : Char → List Char → Prop
  | plain {c : Char} (h : 0x20 ≤ c.toNat) (hquote : c ≠ '"') (hslash : c ≠ '\\') : SpellsChar c [c]
  | letter {c d : Char} (h : unescape? d = some c) : SpellsChar c ['\\', d]
  | unit {x a b c d : Char} {n : Nat} (hn : hex4? a b c d = some n) (h : singleUnit? n = some x) :
    SpellsChar x ['\\', 'u', a, b, c, d]
  | pair {x a b c d a' b' c' d' : Char} {high low : Nat} (hhigh : hex4? a b c d = some high)
    (hlow : hex4? a' b' c' d' = some low) (h : surrogatePair? high low = some x) :
    SpellsChar x ['\\', 'u', a, b, c, d, '\\', 'u', a', b', c', d']

/-- A string between quotation marks. -/
def SpellsString (s : String) (cs : List Char) : Prop :=
  ∃ parts, List.Forall₂ SpellsChar s.toList parts ∧ cs = '"' :: (parts.flatten ++ ['"'])

/-! ## Numbers -/

def Digits (cs : List Char) : Prop := cs ≠ [] ∧ ∀ c ∈ cs, c.isDigit = true

inductive Fraction : List Char → Prop
  | none : Fraction []
  | digits {ds : List Char} (h : Digits ds) : Fraction ('.' :: ds)

inductive Exponent : List Char → Prop
  | none : Exponent []
  | unsigned {e : Char} {ds : List Char} (he : e = 'e' ∨ e = 'E') (h : Digits ds) :
    Exponent (e :: ds)
  | signed {e sign : Char} {ds : List Char} (he : e = 'e' ∨ e = 'E') (hs : sign = '+' ∨ sign = '-')
    (h : Digits ds) : Exponent (e :: sign :: ds)

/-- A number that is no integer: it has a fraction or an exponent, or is a negative zero. -/
def IsDecimal (cs : List Char) : Prop :=
  ∃ (sign : Bool) (n : Nat) (fraction exponent : List Char),
    cs = (if sign then ['-'] else []) ++ (Nat.toDigits 10 n ++ (fraction ++ exponent)) ∧
      Fraction fraction ∧ Exponent exponent ∧ (fraction ++ exponent ≠ [] ∨ sign = true ∧ n = 0)

/-! ## Values -/

/-- What a text is made of. -/
inductive Phrase where
  | value (v : Json)
  /-- Items of an array, with the bracket behind them. -/
  | items (vs : List Json)
  /-- Fields of an object, with the brace behind them. -/
  | fields (fs : List (String × Json))

/-- The texts of a phrase. -/
inductive Spells : Phrase → List Char → Prop
  | null : Spells (.value .null) "null".toList
  | yes : Spells (.value (.bool true)) "true".toList
  | no : Spells (.value (.bool false)) "false".toList
  | int (n : Int) : Spells (.value (.int n)) n.repr.toList
  | decimal {text : String} (h : IsDecimal text.toList) :
    Spells (.value (.decimal text)) text.toList
  | str {s : String} {cs : List Char} (h : SpellsString s cs) : Spells (.value (.str s)) cs
  | emptyArr {gap : List Char} (h : Gap gap) : Spells (.value (.arr [])) ('[' :: (gap ++ [']']))
  | arr {vs : List Json} {cs : List Char} (h : Spells (.items vs) cs) :
    Spells (.value (.arr vs)) ('[' :: cs)
  | emptyObj {gap : List Char} (h : Gap gap) :
    Spells (.value (.obj [])) ('\x7b' :: (gap ++ ['\x7d']))
  | obj {fs : List (String × Json)} {cs : List Char} (h : Spells (.fields fs) cs) :
    Spells (.value (.obj fs)) ('\x7b' :: cs)
  | lastItem {v : Json} {before cs after : List Char} (hbefore : Gap before)
    (hv : Spells (.value v) cs) (hafter : Gap after) :
    Spells (.items [v]) (before ++ (cs ++ (after ++ [']'])))
  | item {v : Json} {vs : List Json} {before cs after rest : List Char} (hbefore : Gap before)
    (hv : Spells (.value v) cs) (hafter : Gap after) (hrest : Spells (.items vs) rest) :
    Spells (.items (v :: vs)) (before ++ (cs ++ (after ++ ',' :: rest)))
  | lastField {k : String} {v : Json} {before key inner sep cs after : List Char}
    (hbefore : Gap before) (hk : SpellsString k key) (hinner : Gap inner) (hsep : Gap sep)
    (hv : Spells (.value v) cs) (hafter : Gap after) :
    Spells (.fields [(k, v)])
      (before ++ (key ++ (inner ++ ':' :: (sep ++ (cs ++ (after ++ ['\x7d']))))))
  | field {k : String} {v : Json} {fs : List (String × Json)}
    {before key inner sep cs after rest : List Char} (hbefore : Gap before)
    (hk : SpellsString k key) (hinner : Gap inner) (hsep : Gap sep) (hv : Spells (.value v) cs)
    (hafter : Gap after) (hrest : Spells (.fields fs) rest) :
    Spells (.fields ((k, v) :: fs))
      (before ++ (key ++ (inner ++ ':' :: (sep ++ (cs ++ (after ++ ',' :: rest))))))

/-- The texts of a value, with blanks around it. -/
def IsText (v : Json) (text : String) : Prop :=
  ∃ before cs after, Gap before ∧ Spells (.value v) cs ∧ Gap after ∧
    text.toList = before ++ (cs ++ after)

/-! ## Values that readers agree on -/

/-- All numbers are integers of 64 bits, signed or unsigned, and the keys of an object are
distinct. -/
inductive Portable : Json → Prop
  | null : Portable .null
  | bool (b : Bool) : Portable (.bool b)
  | int {n : Int} (hle : Int64.minValue.toInt ≤ n) (hlt : n < UInt64.size) : Portable (.int n)
  | str (s : String) : Portable (.str s)
  | arr {items : List Json} (h : ∀ v ∈ items, Portable v) : Portable (.arr items)
  | obj {fields : List (String × Json)} (hkeys : (fields.map Prod.fst).Nodup)
    (h : ∀ field ∈ fields, Portable field.2) : Portable (.obj fields)

end Unjump.Json
