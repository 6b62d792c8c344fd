import StreamParser.Parser.Basic

/-!
# Named character classes

A class is a name and some ranges of characters, ends included. Its parser names the class in
errors.
-/

namespace StreamParser

structure CharClass where
  name : String
  ranges : List (Char × Char)

namespace CharClass

def contains (k : CharClass) (c : Char) : Bool := k.ranges.any fun r => r.1 ≤ c && c ≤ r.2

def parser (k : CharClass) {σ : Type} : Parser σ Char := Parser.satisfy k.name k.contains

def digit : CharClass := ⟨"digit", [('0', '9')]⟩

def letter : CharClass := ⟨"letter", [('a', 'z'), ('A', 'Z')]⟩

def whitespace : CharClass := ⟨"whitespace", [(' ', ' '), ('\r', '\r'), ('\n', '\n'), ('\t', '\t')]⟩

def vowel : CharClass := ⟨"vowel", [('a', 'a'), ('e', 'e'), ('i', 'i'), ('o', 'o'), ('u', 'u')]⟩

def hex : CharClass := ⟨"hex", [('0', '9'), ('a', 'f'), ('A', 'F')]⟩

def greek : CharClass := ⟨"greek", [('α', 'ω'), ('Α', 'Ω')]⟩

def tilde : CharClass := ⟨"tilde", [('~', '~')]⟩

/-- The classes that can be asked for by name. -/
def known : List CharClass := [digit, letter, whitespace, vowel, hex, greek, tilde]

def ofName? (name : String) : Option CharClass := known.find? (·.name == name)

end CharClass

end StreamParser
