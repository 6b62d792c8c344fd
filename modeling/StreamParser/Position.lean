/-!
# Positions in a character stream

A position names a stream and counts what was read of it: characters, lines and the column in the
line. Positions after a text depend only on the characters read, in order (`advance_append`).
-/

namespace StreamParser

def defaultStream : String := "Character Stream"

/-- A place in a named stream: `index` characters are read, `line` counts from one and `column`
from zero. -/
structure Position where
  stream : String
  index : Nat
  line : Nat
  column : Nat
  deriving DecidableEq

namespace Position

def start (stream : String) : Position := ⟨stream, 0, 1, 0⟩

/-- The place after one more character. A newline begins a line; it alone does. -/
def next (p : Position) (c : Char) : Position :=
  if c = '\n' then { p with index := p.index + 1, line := p.line + 1, column := 0 }
  else { p with index := p.index + 1, column := p.column + 1 }

def advance (p : Position) (text : List Char) : Position := text.foldl next p

def bumpColumn (p : Position) : Position := { p with column := p.column + 1 }

def render (p : Position) : String := s!"{p.stream}:{p.line}:{p.column}"

@[simp] theorem advance_nil (p : Position) : p.advance [] = p := rfl

@[simp] theorem advance_cons (p : Position) (c : Char) (cs : List Char) :
    p.advance (c :: cs) = (p.next c).advance cs := rfl

theorem advance_append (p : Position) (a b : List Char) :
    p.advance (a ++ b) = (p.advance a).advance b := List.foldl_append

@[simp] theorem next_stream (p : Position) (c : Char) : (p.next c).stream = p.stream := by
  unfold next; split <;> rfl

@[simp] theorem next_index (p : Position) (c : Char) : (p.next c).index = p.index + 1 := by
  unfold next; split <;> rfl

end Position

end StreamParser
