/-!
# Flags

Flags change how the rest of the enclosing group is read. A pattern sets them in line, as in
`(?i-s:...)` or `(?x)`; whoever compiles a pattern may set them from the start.
-/

namespace StreamParser.Regex

structure Flags where
  caseless : Bool := false
  multiLine : Bool := false
  dotAll : Bool := false
  /-- Flag `U`: repetitions prefer less, and `?` after one reverses that. -/
  swapGreed : Bool := false
  unicode : Bool := true
  /-- Flag `R`: a carriage return ends a line as well. -/
  crlf : Bool := false
  verbose : Bool := false
  deriving DecidableEq

inductive Flag where
  | caseless
  | multiLine
  | dotAll
  | swapGreed
  | unicode
  | crlf
  | verbose
  deriving DecidableEq

def Flag.ofChar? : Char → Option Flag
  | 'i' => some .caseless
  | 'm' => some .multiLine
  | 's' => some .dotAll
  | 'U' => some .swapGreed
  | 'u' => some .unicode
  | 'R' => some .crlf
  | 'x' => some .verbose
  | _ => none

def Flags.set (f : Flags) (on : Bool) : Flag → Flags
  | .caseless => { f with caseless := on }
  | .multiLine => { f with multiLine := on }
  | .dotAll => { f with dotAll := on }
  | .swapGreed => { f with swapGreed := on }
  | .unicode => { f with unicode := on }
  | .crlf => { f with crlf := on }
  | .verbose => { f with verbose := on }

end StreamParser.Regex
