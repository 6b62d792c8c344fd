import StreamParser.Unicode.Word

/-!
# Assertions

An assertion holds at a place between two characters of a text and consumes nothing. It sees the
text it is given and no more: at either end nothing stands before, or after.
-/

namespace StreamParser.Regex

inductive WordPlace where
  | boundary
  | inside
  | start
  | finish
  | startHalf
  | finishHalf
  deriving DecidableEq

inductive Assertion where
  | textStart
  | textEnd
  | lineStart
  | lineEnd
  /-- Lines that end in a newline, a carriage return or both. -/
  | crlfLineStart
  | crlfLineEnd
  | word (place : WordPlace) (unicode : Bool)
  deriving DecidableEq

def isAsciiWord (c : Char) : Bool := c.isAlphanum || c == '_'

def WordPlace.holds (before after : Bool) : WordPlace → Bool
  | boundary => before != after
  | inside => before == after
  | start => !before && after
  | finish => before && !after
  | startHalf => !before
  | finishHalf => !after

def Assertion.holds (before after : Option Char) : Assertion → Bool
  | textStart => before.isNone
  | textEnd => after.isNone
  | lineStart => before.isNone || before == some '\n'
  | lineEnd => after.isNone || after == some '\n'
  | crlfLineStart =>
    before.isNone || before == some '\n' || (before == some '\r' && after != some '\n')
  | crlfLineEnd =>
    after.isNone || after == some '\r' || (after == some '\n' && before != some '\r')
  | word place unicode =>
    let isWord := if unicode then Unicode.isWord else isAsciiWord
    place.holds (before.any isWord) (after.any isWord)

def Assertion.holdsAt (a : Assertion) (w : Array Char) (i : Nat) : Bool :=
  a.holds (if i = 0 then none else w[i - 1]?) w[i]?

end StreamParser.Regex
