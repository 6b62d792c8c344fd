import StreamParser.Regex.Assertion
import StreamParser.Regex.CharSet
import StreamParser.Regex.Error
import StreamParser.Regex.Flags

/-!
# Blanks and escapes

`skipBlanks` passes over what verbose mode ignores. `readEscape` reads what follows a backslash: a
character, a class or an assertion. Readers take the text left and answer with the text left after
them.
-/

namespace StreamParser.Regex

/-- Passes over blanks and comments; `comment` says that a comment is open. -/
def skipComments : (comment : Bool) → List Char → List Char
  | _, [] => []
  | true, c :: cs => skipComments (c != '\n') cs
  | false, c :: cs =>
    if Unicode.isSpace c then skipComments false cs
    else if c = '#' then skipComments true cs
    else c :: cs

def skipBlanks (verbose : Bool) (cs : List Char) : List Char :=
  if verbose then skipComments false cs else cs

/-- What an escape, or a character that stands for itself, means. `byte` marks a character written
as two hexadecimal digits. -/
inductive Primitive where
  | literal (c : Char) (byte : Bool)
  | class (chars : CharSet)
  | assertion (a : Assertion)

def hexDigit? (c : Char) : Option Nat :=
  if c.isDigit then some (c.toNat - '0'.toNat)
  else if 'a' ≤ c ∧ c ≤ 'f' then some (c.toNat - 'a'.toNat + 10)
  else if 'A' ≤ c ∧ c ≤ 'F' then some (c.toNat - 'A'.toNat + 10)
  else none

def charOf (n : Nat) : Except PatternError Char :=
  if n.isValidChar then .ok (Char.ofNat n) else .error .badHexadecimal

def readHexDigits (verbose : Bool) : Nat → (value : Nat) → List Char →
    Except PatternError (Nat × List Char)
  | 0, value, cs => .ok (value, cs)
  | _ + 1, _, [] => .error .unfinished
  | n + 1, value, c :: cs =>
    match hexDigit? c with
    | some d => readHexDigits verbose n (value * 16 + d) (skipBlanks verbose cs)
    | none => .error .badHexadecimal

def readHexBraced (verbose : Bool) : Nat → (value : Option Nat) → List Char →
    Except PatternError (Nat × List Char)
  | 0, _, _ => .error .unfinished
  | _ + 1, _, [] => .error .unfinished
  | n + 1, value, c :: cs =>
    if c = '}' then
      match value with
      | some v => .ok (v, skipBlanks verbose cs)
      | none => .error .badHexadecimal
    else
      match hexDigit? c with
      | some d => readHexBraced verbose n (some (value.getD 0 * 16 + d)) (skipBlanks verbose cs)
      | none => .error .badHexadecimal

def readHex (verbose : Bool) (digits : Nat) (cs : List Char) :
    Except PatternError (Primitive × List Char) := do
  match skipBlanks verbose cs with
  | '{' :: cs =>
    let cs := skipBlanks verbose cs
    let (value, cs) ← readHexBraced verbose cs.length none cs
    return (.literal (← charOf value) false, cs)
  | cs =>
    let (value, cs) ← readHexDigits verbose digits 0 cs
    return (.literal (← charOf value) (digits == 2), cs)

def asciiDigits : CharSet := .range '0' '9'

def asciiSpaces : CharSet := .ofRanges [('\t', '\r'), (' ', ' ')]

def asciiWords : CharSet := .ofRanges [('0', '9'), ('A', 'Z'), ('_', '_'), ('a', 'z')]

/-- A class or its complement. Outside Unicode mode a complement would hold what is no character.
-/
def classOf (flags : Flags) (negated : Bool) (unicode ascii : CharSet) :
    Except PatternError Primitive :=
  match flags.unicode, negated with
  | true, false => .ok (.class unicode)
  | true, true => .ok (.class (.compl unicode))
  | false, false => .ok (.class ascii)
  | false, true => .error .notAscii

def isMeta (c : Char) : Bool :=
  "\\.+*?()|[]\x7b\x7d^$#&-~".toList.contains c

def isEscapable (c : Char) : Bool :=
  isMeta c || (c.toNat < 0x80 && !c.isAlphanum && c != '<' && c != '>')

def readWordPlaceName (verbose : Bool) : Nat → List Char → List Char × List Char
  | 0, cs => ([], cs)
  | _ + 1, [] => ([], [])
  | n + 1, c :: cs =>
    if c.isAlpha || c = '-' then
      let (name, rest) := readWordPlaceName verbose n (skipBlanks verbose cs)
      (c :: name, rest)
    else ([], c :: cs)

/-- What may follow `\b` in braces. If no letter or hyphen follows the brace, it is the brace of a
repetition and is left alone. -/
def readWordPlace (verbose : Bool) (cs : List Char) : Except PatternError (WordPlace × List Char) :=
  match cs with
  | '{' :: inner =>
    let text := skipBlanks verbose inner
    match readWordPlaceName verbose text.length text with
    | ([], []) => .error .unfinished
    | ([], _) => .ok (.boundary, cs)
    | (name, '}' :: rest) =>
      match String.ofList name with
      | "start" => .ok (.start, rest)
      | "end" => .ok (.finish, rest)
      | "start-half" => .ok (.startHalf, rest)
      | "end-half" => .ok (.finishHalf, rest)
      | _ => .error .badEscape
    | _ => .error .badEscape
  | cs => .ok (.boundary, cs)

def readEscape (flags : Flags) : List Char → Except PatternError (Primitive × List Char)
  | [] => .error .unfinished
  | c :: cs =>
    let literal (c : Char) := Except.ok (Primitive.literal c false, cs)
    let assertion (a : Assertion) := Except.ok (Primitive.assertion a, cs)
    let named (negated : Bool) (unicode ascii : CharSet) := do
      return (← classOf flags negated unicode ascii, cs)
    if c.isDigit then .error .backreference
    else if isEscapable c then literal c
    else match c with
      | 'x' => readHex flags.verbose 2 cs
      | 'u' => readHex flags.verbose 4 cs
      | 'U' => readHex flags.verbose 8 cs
      | 'd' => named false .decimalDigit asciiDigits
      | 'D' => named true .decimalDigit asciiDigits
      | 's' => named false .space asciiSpaces
      | 'S' => named true .space asciiSpaces
      | 'w' => named false .word asciiWords
      | 'W' => named true .word asciiWords
      | 'a' => literal '\x07'
      | 'f' => literal '\x0c'
      | 't' => literal '\t'
      | 'n' => literal '\n'
      | 'r' => literal '\r'
      | 'v' => literal '\x0b'
      | 'A' => assertion .textStart
      | 'z' => assertion .textEnd
      | 'B' => assertion (.word .inside flags.unicode)
      | '<' => assertion (.word .start flags.unicode)
      | '>' => assertion (.word .finish flags.unicode)
      | 'b' => do
        let (place, cs) ← readWordPlace flags.verbose cs
        return (.assertion (.word place flags.unicode), cs)
      | _ => .error .badEscape

def literalSet (flags : Flags) (c : Char) (byte : Bool) : Except PatternError CharSet :=
  if flags.unicode then .ok (if flags.caseless then .caseless (.single c) else .single c)
  else if byte && 0x80 ≤ c.toNat then .error .notAscii
  else .ok (if flags.caseless && c.toNat < 0x80 then .asciiCaseless (.single c) else .single c)

end StreamParser.Regex
