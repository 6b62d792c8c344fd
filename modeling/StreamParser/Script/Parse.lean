import StreamParser.Script.Term

/-!
# Single runs

Running a described parser on fresh inputs, and following a position through pieces of text.
-/

namespace StreamParser.Script

structure Task where
  parser : Term
  rules : Rules
  state : Value
  stream : String
  options : Options

def Task.run (t : Task) (input : List Char) : Run (Outcome Value Value) :=
  (t.parser.run t.rules 0).parse input t.state t.stream t.options

/-- The positions after each piece in turn, that before the first included. A missing piece moves
the column alone. -/
def positions (p : Position) : List (Option (List Char)) → List Position
  | [] => [p]
  | piece :: pieces =>
    p :: positions (match piece with
      | some text => p.advance text
      | none => p.bumpColumn) pieces

end StreamParser.Script
