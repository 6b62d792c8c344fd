import StreamParser.Unicode.Letter
import StreamParser.Unicode.Mark
import StreamParser.Unicode.Number

/-!
# Word characters

The characters words are made of: letters, marks, decimal digits, connecting punctuation such as
the underscore, and the two joiners.
-/

namespace StreamParser.Unicode

/-- General category Pc. -/
def connectors : Ranges :=
  [(0x5F, 0x5F), (0x203F, 0x2040), (0x2054, 0x2054), (0xFE33, 0xFE34), (0xFE4D, 0xFE4F),
   (0xFF3F, 0xFF3F)]

def joiners : Ranges := [(0x200C, 0x200D)]

def isWord (c : Char) : Bool :=
  isLetter c || isMark c || isDecimalDigit c || connectors.contains c || joiners.contains c

end StreamParser.Unicode
