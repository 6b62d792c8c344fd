import StreamParser.Parser.Combinator

/-!
# Parsers of literal text

`literal` follows a text character by character and stops at the first that differs. `skipSpaces`
and `charsUntil` consume a longest run at once.
-/

namespace StreamParser

namespace Parser

variable {σ : Type}

def literal (text : String) : Parser σ String := map String.ofList (sequence (text.toList.map char))

def space : Parser σ Char := char ' '

def skipSpaces : Parser σ Unit := fun c =>
  c.reading fun rest => c.succeedWith () (rest.dropWhile (· = ' '))

def literalThenSpace (text : String) : Parser σ String := terminated (literal text) space

/-- The longest run without `delimiter` that starts here, and the context after it. The list
bounds the length of the run. -/
def runUntil (delimiter : Char) : List Char → Context σ → Run (List Char × Context σ)
  | bound, c => do
    match ← notChar delimiter c with
    | .failure .. => return ([], c)
    | .success v d =>
      match bound with
      | [] => .halt .unfinished
      | _ :: bound => do
        let (run, e) ← runUntil delimiter bound d
        return (v :: run, e)

/-- The text up to `delimiter` or to the end of the stream; it may not be empty. -/
def charsUntil (delimiter : Char) : Parser σ String := fun c => do
  let (run, d) ← runUntil delimiter c.remaining c
  if run.isEmpty then return c.fail (.emptyRun delimiter)
  else return .success (String.ofList run) d

end Parser

end StreamParser
