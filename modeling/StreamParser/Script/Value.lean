/-!
# Dynamic values

The values that described parsers find and the states they carry. The fields of a record stand in
ascending order of their names, so equal records are equal lists.
-/

namespace StreamParser.Script

inductive Value where
  | null
  | bool (b : Bool)
  | int (n : Int)
  | text (s : String)
  | list (items : List Value)
  | record (fields : List (String × Value))
  deriving Inhabited

namespace Value

mutual

protected def beq : Value → Value → Bool
  | null, null => true
  | bool a, bool b => a == b
  | int a, int b => a == b
  | text a, text b => a == b
  | list a, list b => beqItems a b
  | record a, record b => beqFields a b
  | _, _ => false

def beqItems : List Value → List Value → Bool
  | [], [] => true
  | a :: as, b :: bs => a.beq b && beqItems as bs
  | _, _ => false

def beqFields : List (String × Value) → List (String × Value) → Bool
  | [], [] => true
  | (m, a) :: as, (n, b) :: bs => m == n && a.beq b && beqFields as bs
  | _, _ => false

end

instance : BEq Value := ⟨Value.beq⟩

def char (c : Char) : Value := text (String.singleton c)

def unit (_ : Unit) : Value := null

def ofPair (v : Value × Value) : Value := list [v.1, v.2]

def ofOption : Option Value → Value
  | none => list []
  | some v => list [v]

def ofText? (s : Option String) : Value := (s.map text).getD null

mutual

/-- All text in a value, in order: numbers and truth values as written, null as nothing, a record
as its field `text`. -/
def flat : Value → String
  | null => ""
  | bool b => if b then "true" else "false"
  | int n => toString n
  | text s => s
  | list items => flatItems items
  | record fields => flatRecord fields

def flatItems : List Value → String
  | [] => ""
  | v :: vs => v.flat ++ flatItems vs

def flatRecord : List (String × Value) → String
  | [] => ""
  | (name, v) :: fields => if name = "text" then v.flat else flatRecord fields

end

def inRange (n : Int) : Bool := -0x8000000000000000 ≤ n && n < 0x8000000000000000

def num : Value → Int
  | int n => if inRange n then n else 0
  | _ => 0

/-- Arithmetic wraps around at 64 bits. -/
def ofNum (n : Int) : Value := int (n.bmod 0x10000000000000000)

def readInt? (cs : List Char) : Option Int :=
  let (sign, digits) : Int × List Char := match cs with
    | '+' :: ds => (1, ds)
    | '-' :: ds => (-1, ds)
    | ds => (1, ds)
  if digits.isEmpty || !digits.all Char.isDigit then none
  else
    let n := sign * digits.foldl (fun n c => n * 10 + (c.toNat - '0'.toNat)) (0 : Nat)
    if inRange n then some n else none

end Value

end StreamParser.Script
