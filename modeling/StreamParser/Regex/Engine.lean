import StreamParser.Regex.Flags

/-!
# Engines of regular expressions

A pattern is compiled by an engine, and what was compiled is known by its answers alone: whether some part of a
text matches, and what the groups match. Nothing is said of the syntax that an engine reads, of its limits or of
how it searches. What is asked of the answers is asked by name.
-/

namespace StreamParser

/-- A compiled expression. `isMatch` tells whether it matches some part of a text; `captures?` gives the texts of
its groups in the leftmost match, by their numbers. -/
structure Regex where
  isMatch : List Char → Bool
  captures? : List Char → Option (List (Option (List Char)))

namespace Regex

/-- Both searches find a match in the same texts. -/
def Agrees (r : Regex) : Prop := ∀ w, (r.captures? w).isSome = r.isMatch w

/-- The leftmost match is where `find?` says, from one place of the text to another, and group 0 is the whole of
it. -/
structure FindsAt (r : Regex) (find? : List Char → Option (Nat × Nat)) : Prop where
  bounds : ∀ {w i j}, find? w = some (i, j) → i ≤ j ∧ j ≤ w.length
  group_zero : ∀ {w texts}, r.captures? w = some texts →
    ∃ i j, find? w = some (i, j) ∧ texts[0]? = some (some ((w.take j).drop i))

end Regex

structure Engine where
  Error : Type
  compile : Regex.Flags → List Char → Except Error Regex

end StreamParser
