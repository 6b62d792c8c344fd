/-!
# Sets of characters as code point ranges

A table is a list of inclusive ranges of code points. Membership is a test of the code point
against each range.
-/

namespace StreamParser.Unicode

abbrev Ranges := List (Nat × Nat)

def Ranges.contains (table : Ranges) (c : Char) : Bool :=
  table.any fun r => r.1 ≤ c.toNat && c.toNat ≤ r.2

theorem Ranges.contains_iff {table : Ranges} {c : Char} :
    table.contains c = true ↔ ∃ r ∈ table, r.1 ≤ c.toNat ∧ c.toNat ≤ r.2 := by
  simp [Ranges.contains]

end StreamParser.Unicode
