import Unjump.Json.Value

/-!
# Reading JSON

Each function reads from the front of a list of characters and gives what it read together with
the rest. Strings and numbers are first cut off as they are written and then decoded. Values nest,
and the functions for values, items and fields take a bound on the nesting; the number of
characters is always enough, and `Reader.document?` supplies it. Whether a text may nest as deep as
it does is decided at the end, in `Json.parse?`.
-/

namespace Unjump.Json.Reader

/-! ## Blanks -/

def isBlank (c : Char) : Bool := c == ' ' || c == '\n' || c == '\t' || c == '\r'

def skipBlanks (cs : List Char) : List Char := cs.dropWhile isBlank

/-! ## Strings -/

/-- Cuts off a string up to its closing quotation mark; a backslash protects the character after
it. -/
def rawString : List Char → Option (List Char × List Char)
  | [] => none
  | c :: rest =>
    if c = '"' then some ([], rest)
    else if c = '\\' then
      match rest with
      | [] => none
      | d :: rest => (rawString rest).map fun (s, tail) ↦ (c :: d :: s, tail)
    else (rawString rest).map fun (s, tail) ↦ (c :: s, tail)

def hexValue? (c : Char) : Option Nat :=
  if c.isDigit then some (c.toNat - '0'.toNat)
  else if 'a' ≤ c ∧ c ≤ 'f' then some (c.toNat - 'a'.toNat + 10)
  else if 'A' ≤ c ∧ c ≤ 'F' then some (c.toNat - 'A'.toNat + 10)
  else none

def hex4? (a b c d : Char) : Option Nat := do
  return ((← hexValue? a) * 16 + (← hexValue? b)) * 256 + (← hexValue? c) * 16 + (← hexValue? d)

/-- The character that a backslash and a letter stand for. -/
def unescape? (c : Char) : Option Char :=
  if c = '"' ∨ c = '\\' ∨ c = '/' then some c
  else if c = 'n' then some '\n'
  else if c = 't' then some '\t'
  else if c = 'r' then some '\r'
  else if c = 'b' then some (Char.ofNat 0x08)
  else if c = 'f' then some (Char.ofNat 0x0C)
  else none

/-- The character of two 16-bit units that form a surrogate pair. -/
def surrogatePair? (high low : Nat) : Option Char :=
  if 0xD800 ≤ high ∧ high < 0xDC00 ∧ 0xDC00 ≤ low ∧ low < 0xE000 then
    some (Char.ofNat (0x10000 + (high - 0xD800) * 0x400 + (low - 0xDC00)))
  else none

/-- The character of a single 16-bit unit that is no surrogate. -/
def singleUnit? (n : Nat) : Option Char :=
  if 0xD800 ≤ n ∧ n < 0xE000 then none else some (Char.ofNat n)

/-- Decodes the escapes of a string that was cut off. -/
def decode : List Char → Option (List Char)
  | [] => some []
  | '\\' :: 'u' :: a :: b :: c :: d :: rest => do
    let unit ← hex4? a b c d
    match singleUnit? unit with
    | some x => (decode rest).map (x :: ·)
    | none =>
      match rest with
      | '\\' :: 'u' :: e :: f :: g :: h :: rest =>
        let x ← surrogatePair? unit (← hex4? e f g h)
        (decode rest).map (x :: ·)
      | _ => none
  | '\\' :: c :: rest => do
    let x ← unescape? c
    (decode rest).map (x :: ·)
  | c :: rest => if c.toNat < 0x20 then none else (decode rest).map (c :: ·)

/-- A string, from behind its opening quotation mark. -/
def string? (cs : List Char) : Option (String × List Char) := do
  let (raw, rest) ← rawString cs
  return (String.ofList (← decode raw), rest)

/-! ## Numbers -/

def isNumberChar (c : Char) : Bool :=
  c.isDigit || c == '-' || c == '+' || c == '.' || c == 'e' || c == 'E'

def isDigits (cs : List Char) : Bool := !cs.isEmpty && cs.all Char.isDigit

/-- Whether the text is a run of digits without a zero to spare in front. -/
def isCanonical (cs : List Char) : Bool := isDigits cs && (cs.head? != some '0' || cs.length == 1)

def isExponent : List Char → Bool
  | [] => true
  | e :: sign :: rest =>
    (e == 'e' || e == 'E') &&
      (if sign == '+' || sign == '-' then isDigits rest else isDigits (sign :: rest))
  | _ => false

/-- Whether the text is a fraction and an exponent, either of which may be missing. -/
def isTail : List Char → Bool
  | '.' :: rest =>
    isDigits (rest.takeWhile Char.isDigit) && isExponent (rest.dropWhile Char.isDigit)
  | cs => isExponent cs

/-- The number of a text without its sign. -/
def numberOf? (negative : Bool) (cs : List Char) : Option Json :=
  let digits := cs.takeWhile Char.isDigit
  let tail := cs.dropWhile Char.isDigit
  if isCanonical digits && isTail tail then
    if tail.isEmpty && !(negative && digits == ['0']) then
      let n : Int := Nat.ofDigitChars 10 digits 0
      some (.int (if negative then -n else n))
    else some (.decimal (String.ofList (if negative then '-' :: cs else cs)))
  else none

def signedOf? : List Char → Option Json
  | '-' :: cs => numberOf? true cs
  | cs => numberOf? false cs

def number? (cs : List Char) : Option (Json × List Char) :=
  (signedOf? (cs.takeWhile isNumberChar)).map fun v ↦ (v, cs.dropWhile isNumberChar)

/-! ## Values -/

/-- A word that stands for a value, or a number. -/
def scalar? (cs : List Char) : Option (Json × List Char) :=
  match cs with
  | 'n' :: 'u' :: 'l' :: 'l' :: rest => some (.null, rest)
  | 't' :: 'r' :: 'u' :: 'e' :: rest => some (.bool true, rest)
  | 'f' :: 'a' :: 'l' :: 's' :: 'e' :: rest => some (.bool false, rest)
  | cs => number? cs

mutual

def value? (bound : Nat) (cs : List Char) : Option (Json × List Char) :=
  match bound with
  | 0 => none
  | bound + 1 =>
    match skipBlanks cs with
    | '"' :: rest => (string? rest).map fun (s, rest) ↦ (.str s, rest)
    | '[' :: rest =>
      match skipBlanks rest with
      | ']' :: rest => some (.arr [], rest)
      | rest => (items? bound rest).map fun (vs, rest) ↦ (.arr vs, rest)
    | '\x7b' :: rest =>
      match skipBlanks rest with
      | '\x7d' :: rest => some (.obj [], rest)
      | rest => (fields? bound rest).map fun (fs, rest) ↦ (.obj fs, rest)
    | cs => scalar? cs

/-- The items of an array that has some, with the bracket behind them. -/
def items? (bound : Nat) (cs : List Char) : Option (List Json × List Char) :=
  match bound with
  | 0 => none
  | bound + 1 => do
    let (v, rest) ← value? bound cs
    match skipBlanks rest with
    | ',' :: rest =>
      let (vs, rest) ← items? bound rest
      return (v :: vs, rest)
    | ']' :: rest => return ([v], rest)
    | _ => none

/-- The fields of an object that has some, with the brace behind them. -/
def fields? (bound : Nat) (cs : List Char) : Option (List (String × Json) × List Char) :=
  match bound with
  | 0 => none
  | bound + 1 =>
    match skipBlanks cs with
    | '"' :: rest => do
      let (k, rest) ← string? rest
      match skipBlanks rest with
      | ':' :: rest =>
        let (v, rest) ← value? bound rest
        match skipBlanks rest with
        | ',' :: rest =>
          let (fs, rest) ← fields? bound rest
          return ((k, v) :: fs, rest)
        | '\x7d' :: rest => return ([(k, v)], rest)
        | _ => none
      | _ => none
    | _ => none

end

/-- The value that a text consists of, blanks around it allowed. -/
def document? (cs : List Char) : Option Json :=
  match value? (2 * cs.length + 2) cs with
  | some (v, rest) => if (skipBlanks rest).isEmpty then some v else none
  | none => none

end Reader

/-- The value of a text, unless it nests deeper than the limit. -/
def parse? (limit : Option Nat) (text : String) : Option Json :=
  (Reader.document? text.toList).filter (fits limit)

end Unjump.Json
