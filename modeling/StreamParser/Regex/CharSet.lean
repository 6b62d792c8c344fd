import StreamParser.Unicode.CaseFolding
import StreamParser.Unicode.Space
import StreamParser.Unicode.Word

/-!
# Sets of characters

A set is an expression over ranges and the Unicode classes; `contains` evaluates it at a
character. `caseless` closes a set under simple case variants, `asciiCaseless` under those of
ASCII letters.
-/

namespace StreamParser.Regex

inductive CharSet where
  | empty
  | range (first last : Char)
  | decimalDigit
  | space
  | word
  | union (a b : CharSet)
  | inter (a b : CharSet)
  | diff (a b : CharSet)
  | symmDiff (a b : CharSet)
  | compl (a : CharSet)
  | caseless (a : CharSet)
  | asciiCaseless (a : CharSet)

namespace CharSet

def asciiVariants (c : Char) : List Char := [c, c.toLower, c.toUpper]

def contains : CharSet → Char → Bool
  | empty, _ => false
  | range first last, c => first ≤ c && c ≤ last
  | decimalDigit, c => Unicode.isDecimalDigit c
  | space, c => Unicode.isSpace c
  | word, c => Unicode.isWord c
  | union a b, c => a.contains c || b.contains c
  | inter a b, c => a.contains c && b.contains c
  | diff a b, c => a.contains c && !b.contains c
  | symmDiff a b, c => a.contains c != b.contains c
  | compl a, c => !a.contains c
  | caseless a, c => (Unicode.caseVariants c).any a.contains
  | asciiCaseless a, c => (asciiVariants c).any a.contains

/-- A rough size: the bytes of a character's UTF-8 form, and for a Unicode class a figure for its
many ranges. -/
def weight : CharSet → Nat
  | empty => 1
  | range _ last => last.utf8Size
  | decimalDigit => 150
  | space => 10
  | word => 1500
  | union a b => a.weight + b.weight
  | inter a b => min a.weight b.weight
  | diff a _ => a.weight
  | symmDiff a b => a.weight + b.weight
  | compl a => a.weight + 3
  | caseless a => a.weight
  | asciiCaseless a => a.weight

def single (c : Char) : CharSet := range c c

def ofRanges (rs : List (Char × Char)) : CharSet :=
  rs.foldr (fun r s => union (range r.1 r.2) s) empty

end CharSet

end StreamParser.Regex
