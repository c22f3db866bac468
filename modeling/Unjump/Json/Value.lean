/-!
# JSON values

Values as a data form holds them. The fields of an object keep their order. Numbers are exact
integers; a number with a fraction or an exponent, and a negative zero, is no integer and is kept
as it was written.
-/

namespace Unjump

inductive Json where
  | null
  | bool (b : Bool)
  | int (n : Int)
  /-- A number that is no integer, as it was written. -/
  | decimal (text : String)
  | str (s : String)
  | arr (items : List Json)
  | obj (fields : List (String × Json))

namespace Json

instance : Inhabited Json := ⟨null⟩

/-- The value of a field; none if there is no such field, or no fields at all. -/
def get? (key : String) : Json → Option Json
  | obj fields => fields.lookup key
  | _ => none

def nat (n : Nat) : Json := int n

mutual

/-- How many arrays and objects there are around what is nested deepest. -/
def depth : Json → Nat
  | arr items => depthItems items + 1
  | obj fields => depthFields fields + 1
  | _ => 0

def depthItems : List Json → Nat
  | [] => 0
  | v :: rest => max v.depth (depthItems rest)

def depthFields : List (String × Json) → Nat
  | [] => 0
  | (_, v) :: rest => max v.depth (depthFields rest)

end

/-- Whether the value nests no deeper than the limit, if there is one. -/
def fits (limit : Option Nat) (v : Json) : Bool := limit.all fun n ↦ v.depth ≤ n

end Json

end Unjump
