import StreamParser.Script.Value

/-!
# Named functions

The functions that described parsers may map with, combine with, and change the state with.
-/

namespace StreamParser.Script

inductive Unary where
  | flat
  | count
  | int
  | inc
  | const (v : Value)
  | tag (v : Value)
  | item (index : Value)

inductive Binary where
  | pair
  | swap
  | concat
  | add
  | sub
  | cons

inductive Change where
  | add (v : Value)
  | mul (v : Value)
  | set (v : Value)
  | push (v : Value)

def Unary.apply : Unary → Value → Value
  | flat, v => .text v.flat
  | count, .list items => .int items.length
  | count, .text s => .int s.length
  | count, _ => .null
  | int, v => ((Value.readInt? v.flat.toList).map Value.int).getD .null
  | inc, v => .ofNum (v.num + 1)
  | const v, _ => v
  | tag t, v => .record [("tag", t), ("value", v)]
  | item (.int (.ofNat k)), .list items => items[k]?.getD .null
  | item _, _ => .null

def Binary.apply : Binary → Value → Value → Value
  | pair, a, b => .list [a, b]
  | swap, a, b => .list [b, a]
  | concat, a, b => .text (a.flat ++ b.flat)
  | add, a, b => .ofNum (a.num + b.num)
  | sub, a, b => .ofNum (a.num - b.num)
  | cons, a, .list items => .list (a :: items)
  | cons, a, b => .list [a, b]

def Change.apply : Change → Value → Value
  | add v, s => .ofNum (s.num + v.num)
  | mul v, s => .ofNum (s.num * v.num)
  | set v, _ => v
  | push v, .list items => .list (items ++ [v])
  | push v, _ => .list [v]

end StreamParser.Script
