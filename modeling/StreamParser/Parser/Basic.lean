import StreamParser.Outcome

/-!
# Parsers and their leaves

A parser is a function from a context to a run with an outcome. The leaves here read at most one
character: `char`, `notChar`, `satisfy`, `endOfStream`; or none: `just`, `state`, `update`.
-/

namespace StreamParser

abbrev Parser (σ α : Type) := Context σ → Run (Outcome σ α)

namespace Parser

variable {σ α : Type}

def parse (p : Parser σ α) (input : List Char) (state : σ) (stream : String) (options : Options) :
    Run (Outcome σ α) :=
  p (((Context.start input state).withStream stream).withOptions options)

/-- The character `expected` and no other. A mismatch is logged where it stands; the error is
placed a column further if the options say so. -/
def char (expected : Char) : Parser σ Char := fun c =>
  c.reading fun
    | [] => return c.fail (.endReached (.char expected) c.position.stream)
    | head :: rest =>
      if head = expected then c.succeedWith head rest
      else do
        Run.log (.mismatch expected head c.position)
        let place := if c.options.bumpOnMismatch then c.position.bumpColumn else c.position
        return c.failWith (.located ⟨place, .mismatch (.char expected) head⟩)

/-- Any character but `unwanted`. It tries `char unwanted` and succeeds where that fails, so each
character accepted is logged as a mismatch. -/
def notChar (unwanted : Char) : Parser σ Char := fun c =>
  c.reading fun
    | [] => return c.fail (.endReached (.char unwanted) c.position.stream)
    | head :: rest => do
      match ← char unwanted c with
      | .failure .. => c.succeedWith head rest
      | .success .. => return c.fail (.excluded unwanted head)

def satisfy (label : String) (p : Char → Bool) : Parser σ Char := fun c =>
  c.reading fun
    | [] => return c.fail (.endReached (.label label) c.position.stream)
    | head :: rest =>
      if p head then c.succeedWith head rest
      else return c.fail (.mismatch (.label label) head)

def endOfStream : Parser σ Unit := fun c =>
  c.reading fun
    | [] => return c.succeed ()
    | head :: _ => return c.fail (.mismatch .endOfStream head)

def just (v : α) : Parser σ α := fun c => return c.succeed v

def fail (cause : Cause) : Parser σ α := fun c => return c.fail cause

def state : Parser σ σ := fun c => return c.succeed c.state

def update (f : σ → σ) : Parser σ Unit := fun c => return .success () (c.withState (f c.state))

end Parser

end StreamParser
