import StreamParser.Regex.Class
import StreamParser.Regex.Node
import StreamParser.Unicode.Letter
import StreamParser.Unicode.Number

/-!
# Tokens of a pattern

What a pattern is read as, from left to right: pieces that match by themselves, repetitions of the
piece before, group openings and closings, bars, and changes of flags. A token is read under the
flags in force and takes no more of the text than belongs to it.
-/

namespace StreamParser.Regex

structure Piece where
  node : Node
  depth : Nat

inductive Opening where
  | numbered
  | named (name : String)
  | plain (flags : Flags)

inductive Token where
  | piece (piece : Piece)
  | repetition (least : Nat) (most : Option Nat) (isLazy : Bool)
  | opening (o : Opening)
  | flags (flags : Flags)
  | bar
  | close

def isNameStart (c : Char) : Bool := c = '_' || Unicode.isLetter c

def isNamePart (c : Char) : Bool :=
  isNameStart c || c = '.' || c = '[' || c = ']' ||
    Unicode.isDecimalDigit c || Unicode.isOtherNumber c

def readGroupName (cs : List Char) : Except PatternError (String × List Char) :=
  let name := cs.takeWhile (· ≠ '>')
  match cs.dropWhile (· ≠ '>'), name with
  | '>' :: rest, c :: more =>
    if isNameStart c && more.all isNamePart then .ok (String.ofList name, rest)
    else .error .badGroupName
  | _, _ => .error .badGroupName

/-- Flags up to a colon or a closing parenthesis, which stays in the text. A hyphen switches from
setting to clearing. `seen` holds the flags read before, `clearing` whether the hyphen was read.
-/
def readFlags : (seen : List Flag) → (clearing : Bool) → (flags : Flags) → List Char →
    Except PatternError (Flags × List Char)
  | _, _, _, [] => .error .badFlag
  | seen, clearing, flags, c :: cs =>
    if c = ':' ∨ c = ')' then .ok (flags, c :: cs)
    else if c = '-' then
      if clearing then .error .repeatedFlag
      else match cs with
        | ':' :: _ => .error .danglingNegation
        | ')' :: _ => .error .danglingNegation
        | cs => readFlags seen true flags cs
    else match Flag.ofChar? c with
      | none => .error .badFlag
      | some f =>
        if seen.contains f then .error .repeatedFlag
        else readFlags (f :: seen) clearing (flags.set (!clearing) f) cs

def readOpening (flags : Flags) (cs : List Char) : Except PatternError (Token × List Char) :=
  match skipBlanks flags.verbose cs with
  | '?' :: '=' :: _ => .error .lookaround
  | '?' :: '!' :: _ => .error .lookaround
  | '?' :: '<' :: '=' :: _ => .error .lookaround
  | '?' :: '<' :: '!' :: _ => .error .lookaround
  | '?' :: 'P' :: '<' :: cs => do
    let (name, rest) ← readGroupName cs
    return (.opening (.named name), rest)
  | '?' :: '<' :: cs => do
    let (name, rest) ← readGroupName cs
    return (.opening (.named name), rest)
  | '?' :: ')' :: _ => .error .nothingToRepeat
  | '?' :: cs => do
    match ← readFlags [] false flags cs with
    | (inner, ':' :: rest) => return (.opening (.plain inner), rest)
    | (later, rest) => return (.flags later, rest.drop 1)
  | rest => .ok (.opening .numbered, rest)

def takeDigits (verbose : Bool) : Nat → List Char → List Char × List Char
  | 0, cs => ([], cs)
  | _ + 1, [] => ([], [])
  | n + 1, c :: cs =>
    if c.isDigit then
      let (digits, rest) := takeDigits verbose n (skipBlanks verbose cs)
      (c :: digits, rest)
    else ([], c :: cs)

/-- Blanks, which are passed over here in any mode, and after each what verbose mode ignores. -/
def dropSpaces (verbose : Bool) : Nat → List Char → List Char
  | n + 1, c :: cs =>
    if Unicode.isSpace c then dropSpaces verbose n (skipBlanks verbose cs) else c :: cs
  | _, cs => cs

/-- A count: digits with blanks around them, below `2 ^ 32`; `none` if there are no digits. -/
def readCount (verbose : Bool) (cs : List Char) : Except PatternError (Option Nat × List Char) :=
  let cs := cs.dropWhile Unicode.isSpace
  let (digits, rest) := takeDigits verbose cs.length cs
  let rest := dropSpaces verbose rest.length rest
  let value := digits.foldl (fun n c => n * 10 + (c.toNat - '0'.toNat)) 0
  if digits.isEmpty then .ok (none, rest)
  else if value < 0x100000000 then .ok (some value, rest)
  else .error .badCount

def readBounds (verbose : Bool) (cs : List Char) :
    Except PatternError ((Nat × Option Nat) × List Char) := do
  match ← readCount verbose (skipBlanks verbose cs) with
  | (some least, '}' :: rest) => return ((least, some least), rest)
  | (some least, ',' :: rest) =>
    match skipBlanks verbose rest with
    | '}' :: rest => return ((least, none), rest)
    | rest =>
      match ← readCount verbose rest with
      | (some most, '}' :: rest) =>
        if least ≤ most then return ((least, some most), rest) else .error .reversedCount
      | _ => .error .badCount
  | _ => .error .badCount

def readLazy : List Char → Bool × List Char
  | '?' :: cs => (true, cs)
  | cs => (false, cs)

def Flags.caret (flags : Flags) : Assertion :=
  if flags.multiLine then if flags.crlf then .crlfLineStart else .lineStart else .textStart

def Flags.dollar (flags : Flags) : Assertion :=
  if flags.multiLine then if flags.crlf then .crlfLineEnd else .lineEnd else .textEnd

/-- What the dot matches: any character, or any that ends no line. -/
def Flags.dot (flags : Flags) : Except PatternError CharSet :=
  if !flags.unicode then .error .notAscii
  else if flags.dotAll then .ok (.compl .empty)
  else if flags.crlf then .ok (.compl (.union (.single '\r') (.single '\n')))
  else .ok (.compl (.single '\n'))

def Token.ofSet (chars : CharSet) (depth : Nat) : Token := .piece ⟨.set chars, depth⟩

def Token.ofAssertion (a : Assertion) : Token := .piece ⟨.assert a, 0⟩

def Token.ofPrimitive (flags : Flags) : Primitive → Except PatternError Token
  | .literal c byte => do return .ofSet (← literalSet flags c byte) 0
  | .class s => .ok (.ofSet s 0)
  | .assertion a => .ok (.ofAssertion a)

/-- The next token; `none` at the end. -/
def readToken (flags : Flags) (cs : List Char) : Except PatternError (Option (Token × List Char)) :=
  let simple (least : Nat) (most : Option Nat) (rest : List Char) :=
    let (isLazy, rest) := readLazy rest
    Except.ok (some (Token.repetition least most isLazy, rest))
  match skipBlanks flags.verbose cs with
  | [] => .ok none
  | '(' :: rest => some <$> readOpening flags rest
  | ')' :: rest => .ok (some (.close, rest))
  | '|' :: rest => .ok (some (.bar, rest))
  | '?' :: rest => simple 0 (some 1) rest
  | '*' :: rest => simple 0 none rest
  | '+' :: rest => simple 1 none rest
  | '\x7b' :: rest => do
    let ((least, most), rest) ← readBounds flags.verbose rest
    let (isLazy, rest) := readLazy (skipBlanks flags.verbose rest)
    return some (.repetition least most isLazy, rest)
  | '[' :: rest => do
    let (item, rest) ← readClass flags rest
    return some (.ofSet item.chars item.depth, rest)
  | '.' :: rest => do return some (.ofSet (← flags.dot) 0, rest)
  | '^' :: rest => .ok (some (.ofAssertion flags.caret, rest))
  | '$' :: rest => .ok (some (.ofAssertion flags.dollar, rest))
  | '\\' :: rest => do
    let (p, rest) ← readEscape flags rest
    return some (← Token.ofPrimitive flags p, rest)
  | c :: rest => do return some (.ofSet (← literalSet flags c false) 0, rest)

end StreamParser.Regex
