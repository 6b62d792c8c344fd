import StreamParser.Parser.Basic

/-!
# Parsers of a caller's own making

Small parsers written with the operations of contexts: failing with a caller's error, taking a
number of characters, stopping before a given rest, looking ahead, and dropping changes of state.
-/

namespace StreamParser

namespace Parser

variable {σ α : Type}

def failCustom (e : CustomError) : Parser σ α := fun c => return c.failWith (.custom e)

def take (n : Nat) : Parser σ String := fun c =>
  c.reading fun rest => return .success (String.ofList (rest.take n)) (c.advance n)

def leaving (rest : List Char) (v : α) : Parser σ α := fun c => c.succeedWith v rest

def peek (p : Parser σ α) : Parser σ α := fun c => do
  match ← p c with
  | .success v _ => return c.succeed v
  | .failure e _ => return c.failWith e

/-- Runs `p` without the changes it makes to the state. -/
def keepState (p : Parser σ α) : Parser σ α := fun c => do
  match ← p c with
  | .success v d => return c.succeedFrom v d
  | .failure e d => return .failure e d

end Parser

end StreamParser
