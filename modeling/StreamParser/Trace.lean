import StreamParser.Position
import StreamParser.Text.Quoted

/-!
# Trace events

What a run logs on its way: a character that was not the expected one, a step from one alternative
to the next, and a refusal to nest deeper. Each names the position it was logged at.
-/

namespace StreamParser

inductive Event where
  | mismatch (expected found : Char) (place : Position)
  | fallback (place : Position)
  | nestLimit (level : Nat) (place : Position)
  deriving DecidableEq

namespace Event

def place : Event → Position
  | .mismatch _ _ p => p
  | .fallback p => p
  | .nestLimit _ p => p

def render : Event → String
  | .mismatch expected found p => s!"expected {quoted expected}, got {quoted found} at {p.render}"
  | .fallback p => s!"falling back to second alternative at {p.render}"
  | .nestLimit level p => s!"nest limit {level} reached at {p.render}"

end Event

end StreamParser
