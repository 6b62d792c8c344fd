import StreamParser.Regex.Escape

/-!
# Bracketed classes

Reading `[...]`: characters, ranges, escapes, nested brackets, named ASCII classes, and the
operators `&&`, `--` and `~~`, which are all of one rank and associate to the left. The depth of
what was read counts one for each bracket, each operator and each union of two items or more.
-/

namespace StreamParser.Regex

structure Operand where
  chars : CharSet
  depth : Nat

inductive SetOp where
  | inter
  | diff
  | symmDiff

def SetOp.apply : SetOp → CharSet → CharSet → CharSet
  | inter => .inter
  | diff => .diff
  | symmDiff => .symmDiff

/-- An open bracket: the left operand of an operator that waits for its right one, and the items
read since, the latest first. -/
structure Bracket where
  negated : Bool
  pending : Option (SetOp × Operand)
  items : List Operand

def foldCase (flags : Flags) (s : CharSet) : CharSet :=
  if flags.caseless then if flags.unicode then .caseless s else .asciiCaseless s else s

/-- Folds, then complements. Outside Unicode mode the result has to stay within ASCII; every set
read in that mode holds all of the code points above ASCII or none, so one of them tells. -/
def finishClass (flags : Flags) (negated : Bool) (s : CharSet) : Except PatternError CharSet :=
  let s := foldCase flags s
  let s := if negated then .compl s else s
  if !flags.unicode && s.contains '\x80' then .error .notAscii else .ok s

/-- How deep a node of `n` parts is whose deepest part has the given depth: a single part needs
none. -/
def depthOf (n depth : Nat) : Nat := if n ≤ 1 then depth else depth + 1

namespace Bracket

def add (b : Bracket) (item : Operand) : Bracket := { b with items := item :: b.items }

def union (b : Bracket) : Operand where
  chars := b.items.foldl (fun s item => .union item.chars s) .empty
  depth := depthOf b.items.length (b.items.foldl (fun d item => max d item.depth) 0)

def operand (flags : Flags) (b : Bracket) : Operand :=
  match b.pending with
  | none => b.union
  | some (op, left) =>
    { chars := op.apply (foldCase flags left.chars) (foldCase flags b.union.chars)
      depth := max left.depth b.union.depth + 1 }

def operator (flags : Flags) (b : Bracket) (op : SetOp) : Bracket :=
  { b with pending := some (op, b.operand flags), items := [] }

def close (flags : Flags) (b : Bracket) : Except PatternError Operand := do
  let whole := b.operand flags
  return { chars := ← finishClass flags b.negated whole.chars, depth := whole.depth + 1 }

end Bracket

def asciiClasses : List (String × CharSet) :=
  [("alnum", .ofRanges [('0', '9'), ('A', 'Z'), ('a', 'z')]),
   ("alpha", .ofRanges [('A', 'Z'), ('a', 'z')]),
   ("ascii", .range '\x00' '\x7f'),
   ("blank", .ofRanges [('\t', '\t'), (' ', ' ')]),
   ("cntrl", .ofRanges [('\x00', '\x1f'), ('\x7f', '\x7f')]),
   ("digit", asciiDigits),
   ("graph", .range '!' '~'),
   ("lower", .range 'a' 'z'),
   ("print", .range ' ' '~'),
   ("punct", .ofRanges [('!', '/'), (':', '@'), ('[', '\x60'), ('\x7b', '~')]),
   ("space", asciiSpaces),
   ("upper", .range 'A' 'Z'),
   ("word", asciiWords),
   ("xdigit", .ofRanges [('0', '9'), ('A', 'F'), ('a', 'f')])]

def namedClass? : List Char → Option (Bool × CharSet × List Char)
  | ':' :: cs =>
    let (negated, cs) := match cs with
      | '^' :: cs => (true, cs)
      | cs => (false, cs)
    match cs.dropWhile (· ≠ ':') with
    | ':' :: ']' :: rest =>
      (asciiClasses.lookup (String.ofList (cs.takeWhile (· ≠ ':')))).map (negated, ·, rest)
    | _ => none
  | _ => none

/-- The next character that counts, as far as a hyphen looks ahead: past blanks and one comment
sign. -/
def peekAhead : (comment : Bool) → List Char → Option Char
  | _, [] => none
  | comment, c :: cs =>
    if Unicode.isSpace c then peekAhead comment cs
    else if !comment && c = '#' then peekAhead true cs
    else some c

def readClassPrimitive (flags : Flags) : List Char → Except PatternError (Primitive × List Char)
  | [] => .error .unclosedClass
  | '\\' :: cs => readEscape flags cs
  | c :: cs => .ok (.literal c false, cs)

def Primitive.char (flags : Flags) : Primitive → Except PatternError Char
  | literal c _ => if !flags.unicode && 0x80 ≤ c.toNat then .error .notAscii else .ok c
  | .class _ => .error .badRange
  | assertion _ => .error .escapeInClass

def Primitive.operand (flags : Flags) : Primitive → Except PatternError Operand
  | .class s => .ok ⟨s, 0⟩
  | p => do return ⟨.single (← p.char flags), 0⟩

/-- One item or one range. A hyphen before a closing bracket or another hyphen makes no range. -/
def readClassItem (flags : Flags) (cs : List Char) : Except PatternError (Operand × List Char) := do
  let (p, cs) ← readClassPrimitive flags cs
  match skipBlanks flags.verbose cs with
  | [] => .error .unclosedClass
  | '-' :: after =>
    let ahead := if flags.verbose then peekAhead false after else after.head?
    if ahead = some ']' ∨ ahead = some '-' then return (← p.operand flags, '-' :: after)
    else
      let (q, rest) ← readClassPrimitive flags (skipBlanks flags.verbose after)
      let first ← p.char flags
      let last ← q.char flags
      if first ≤ last then return (⟨.range first last, 0⟩, rest) else .error .badRange
  | rest => return (← p.operand flags, rest)

def readHyphens (verbose : Bool) : Nat → List Char → Nat × List Char
  | n + 1, '-' :: cs =>
    let (count, rest) := readHyphens verbose n (skipBlanks verbose cs)
    (count + 1, rest)
  | _, cs => (0, cs)

def openBracket (flags : Flags) (cs : List Char) : Except PatternError (Bracket × List Char) :=
  let skip := skipBlanks flags.verbose
  let cs := skip cs
  let (negated, cs) := match cs with
    | '^' :: cs => (true, skip cs)
    | cs => (false, cs)
  let (hyphens, cs) := readHyphens flags.verbose cs.length cs
  let bracket : Bracket := ⟨negated, none, List.replicate hyphens ⟨.single '-', 0⟩⟩
  let (bracket, cs) := match hyphens, cs with
    | 0, ']' :: cs => (bracket.add ⟨.single ']', 0⟩, skip cs)
    | _, cs => (bracket, cs)
  if cs.isEmpty then .error .unclosedClass else .ok (bracket, cs)

/-- Reads on in the innermost open bracket until the outermost is closed. The first argument
bounds the number of items. -/
def readBrackets (flags : Flags) : Nat → Bracket → (outer : List Bracket) → List Char →
    Except PatternError (Operand × List Char)
  | 0, _, _, _ => .error .unclosedClass
  | n + 1, b, outer, cs => do
    match skipBlanks flags.verbose cs with
    | [] => .error .unclosedClass
    | '[' :: cs =>
      match namedClass? cs with
      | some (negated, s, rest) =>
        readBrackets flags n (b.add ⟨← finishClass flags negated s, 0⟩) outer rest
      | none =>
        let (inner, rest) ← openBracket flags cs
        readBrackets flags n inner (b :: outer) rest
    | ']' :: cs =>
      let item ← b.close flags
      match outer with
      | [] => return (item, cs)
      | next :: outer => readBrackets flags n (next.add item) outer cs
    | '&' :: '&' :: cs => readBrackets flags n (b.operator flags .inter) outer cs
    | '-' :: '-' :: cs => readBrackets flags n (b.operator flags .diff) outer cs
    | '~' :: '~' :: cs => readBrackets flags n (b.operator flags .symmDiff) outer cs
    | cs =>
      let (item, rest) ← readClassItem flags cs
      readBrackets flags n (b.add item) outer rest

def readClass (flags : Flags) (cs : List Char) : Except PatternError (Operand × List Char) := do
  let (bracket, rest) ← openBracket flags cs
  readBrackets flags rest.length bracket [] rest

end StreamParser.Regex
