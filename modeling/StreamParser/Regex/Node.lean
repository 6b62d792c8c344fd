import StreamParser.Regex.Assertion
import StreamParser.Regex.CharSet

/-!
# Patterns as trees

Case, line and greediness rules are already resolved in a tree: sets are folded, assertions
chosen, and each repetition knows whether it prefers more or less.
-/

namespace StreamParser.Regex

inductive Node where
  | empty
  | set (chars : CharSet)
  | assert (a : Assertion)
  /-- A numbered group; group 0 is the whole match and stands in no tree. -/
  | group (index : Nat) (body : Node)
  | seq (a b : Node)
  /-- Either; `a` is preferred to `b`. -/
  | alt (a b : Node)
  | rep (greedy : Bool) (least : Nat) (most : Option Nat) (body : Node)

namespace Node

def onlyEmpty : Node → Bool
  | empty => true
  | set _ => false
  | assert _ => true
  | group _ a => a.onlyEmpty
  | seq a b => a.onlyEmpty && b.onlyEmpty
  | alt a b => a.onlyEmpty && b.onlyEmpty
  | rep _ _ _ a => a.onlyEmpty

/-- A repetition in simplest form. Repeating what matches nothing is done once at most; what is
never done is nothing, groups and all; what is done just once is itself. -/
def repeated (greedy : Bool) (least : Nat) (most : Option Nat) (body : Node) : Node :=
  let least := if body.onlyEmpty then min least 1 else least
  let most := if body.onlyEmpty then some (min (most.getD 1) 1) else most
  if most = some 0 then empty
  else if least = 1 ∧ most = some 1 then body
  else rep greedy least most body

def ofSeq : List Node → Node
  | [] => empty
  | [a] => a
  | a :: as => seq a (ofSeq as)

def ofAlt : List Node → Node
  | [] => empty
  | [a] => a
  | a :: as => alt a (ofAlt as)

/-- One more than the highest group number. Groups that were dropped leave a gap below it. -/
def groupCount : Node → Nat
  | empty => 1
  | set _ => 1
  | assert _ => 1
  | group k a => max (k + 1) a.groupCount
  | seq a b => max a.groupCount b.groupCount
  | alt a b => max a.groupCount b.groupCount
  | rep _ _ _ a => a.groupCount

/-- How large a pattern is: its elementary steps, with every counted repetition written out. -/
def size : Node → Nat
  | empty => 1
  | set chars => chars.weight
  | assert _ => 1
  | group _ a => a.size + 2
  | seq a b => a.size + b.size
  | alt a b => a.size + b.size + 1
  | rep _ least none a => max least 1 * a.size + 2
  | rep _ least (some most) a => least * a.size + (most - least) * (a.size + 1) + 1

end Node

end StreamParser.Regex
