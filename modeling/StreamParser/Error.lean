import StreamParser.Position

/-!
# Parse errors

A located error is a position and a cause; `Cause.message` is the only place that words a cause. A
custom error belongs to the caller: it has a text, no position, and is equal to itself alone, so
it carries the occasion on which it was raised.
-/

namespace StreamParser

inductive Wanted where
  | char (c : Char)
  | label (text : String)
  | endOfStream
  deriving DecidableEq

def Wanted.text : Wanted → String
  | .char c => String.singleton c
  | .label text => text
  | .endOfStream => "end of stream"

inductive Cause where
  | endReached (wanted : Wanted) (stream : String)
  | mismatch (wanted : Wanted) (found : Char)
  /-- The one character that was excluded stood there. -/
  | excluded (unwanted found : Char)
  | noAlternative
  | nestLimit
  | notTheRest
  | emptyRun (delimiter : Char)
  | patternAtEnd (source : String)
  | patternMismatch (remaining source : String)
  | stated (text : String)
  deriving DecidableEq

def Cause.message : Cause → String
  | .endReached wanted stream => s!"Expected {wanted.text}, reached end of stream: {stream}"
  | .mismatch wanted found => s!"Expected {wanted.text}, got {found}"
  | .excluded unwanted found => s!"Expected: {unwanted} to not match but instead found {found}"
  | .noAlternative => "No alternatives to choose from"
  | .nestLimit => "Exceeded nest level"
  | .notTheRest => "Remaining input does not end with the given rest"
  | .emptyRun delimiter => s!"Nothing found that does not match {delimiter}"
  | .patternAtEnd source => s!"Expected: {source} but stream is empty"
  | .patternMismatch remaining source =>
    s!"Expected stream: {remaining} to match pattern: {source} found nothing"
  | .stated text => text

structure LocatedError where
  position : Position
  cause : Cause

namespace LocatedError

def message (e : LocatedError) : String := e.cause.message

def render (e : LocatedError) : String := s!"{e.message} ({e.position.render})"

/-- Errors are equal when a reader cannot tell them apart: same place, same words. -/
instance : BEq LocatedError where
  beq a b := a.position == b.position && a.message == b.message

end LocatedError

structure CustomError where
  occasion : Nat
  text : String

/-- The same words said on another occasion are another error. -/
instance : BEq CustomError where
  beq a b := a.occasion == b.occasion

inductive ParseError where
  | located (error : LocatedError)
  | custom (error : CustomError)

namespace ParseError

def message : ParseError → String
  | .located e => e.message
  | .custom e => e.text

def position? : ParseError → Option Position
  | .located e => some e.position
  | .custom _ => none

def render : ParseError → String
  | .located e => e.render
  | .custom e => e.text

instance : BEq ParseError where
  beq
    | .located a, .located b => a == b
    | .custom a, .custom b => a == b
    | _, _ => false

end ParseError

end StreamParser
