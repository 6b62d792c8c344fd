import StreamParser.Regex.Engine
import StreamParser.Regex.Search
import StreamParser.Regex.Token

/-!
# An engine that searches trees

A builder holds the groups that are open and what was read of each; tokens are pushed one after
the other. What was read is refused if it is nested or grown too large, and else it is a tree, which
`Regex/Search` knows how to search.

`treeEngine` is one engine among others: it has a syntax and limits of its own, and programs run on
it. Parsers are made from the expressions of any engine.
-/

namespace StreamParser.Regex

/-- One entry of a branch: a piece, or a change of flags, which matches nothing and counts as a
part. -/
inductive Item where
  | piece (piece : Piece)
  | flags

def Item.node? : Item → Option Node
  | piece p => some p.node
  | flags => none

def Item.depth : Item → Nat
  | piece p => p.depth
  | flags => 0

/-- What was read of one group: the branches before the last bar and the items after it, the
latest first. -/
structure Level where
  branches : List Piece
  items : List Item

namespace Level

def empty : Level := ⟨[], []⟩

def add (l : Level) (item : Item) : Level := { l with items := item :: l.items }

def branch (l : Level) : Piece where
  node := .ofSeq (l.items.reverse.filterMap Item.node?)
  depth := depthOf l.items.length (l.items.foldl (fun d item => max d item.depth) 0)

def bar (l : Level) : Level := ⟨l.branch :: l.branches, []⟩

def whole (l : Level) : Piece :=
  let all := l.branch :: l.branches
  { node := .ofAlt (all.reverse.map (·.node))
    depth := depthOf all.length (all.foldl (fun d p => max d p.depth) 0) }

end Level

/-- A group that is open: what stood before it, its number if it has one, and the flags to return
to. -/
structure Enclosing where
  level : Level
  index : Option Nat
  flags : Flags

structure Builder where
  flags : Flags
  level : Level
  enclosing : List Enclosing
  groups : Nat
  names : List String

namespace Builder

def start (flags : Flags) : Builder := ⟨flags, .empty, [], 0, []⟩

def add (b : Builder) (item : Item) : Builder := { b with level := b.level.add item }

def repeatLast (b : Builder) (least : Nat) (most : Option Nat) (isLazy : Bool) :
    Except PatternError Builder :=
  match b.level.items with
  | .piece p :: items =>
    let greedy := isLazy == b.flags.swapGreed
    let again : Piece := ⟨.repeated greedy least most p.node, p.depth + 1⟩
    .ok { b with level := { b.level with items := .piece again :: items } }
  | _ => .error .nothingToRepeat

def openGroup (b : Builder) : Opening → Except PatternError Builder
  | .numbered =>
    .ok { b with
      level := .empty
      enclosing := ⟨b.level, some (b.groups + 1), b.flags⟩ :: b.enclosing
      groups := b.groups + 1 }
  | .named name =>
    if b.names.contains name then .error .duplicateGroupName
    else
      .ok { b with
        level := .empty
        enclosing := ⟨b.level, some (b.groups + 1), b.flags⟩ :: b.enclosing
        groups := b.groups + 1
        names := name :: b.names }
  | .plain flags =>
    .ok { b with
      flags := flags
      level := .empty
      enclosing := ⟨b.level, none, b.flags⟩ :: b.enclosing }

def close (b : Builder) : Except PatternError Builder :=
  match b.enclosing with
  | [] => .error .unopenedGroup
  | outer :: enclosing =>
    let inner := b.level.whole
    let node := match outer.index with
      | some k => .group k inner.node
      | none => inner.node
    .ok { b with
      flags := outer.flags
      level := outer.level.add (.piece ⟨node, inner.depth + 1⟩)
      enclosing := enclosing }

def push (b : Builder) : Token → Except PatternError Builder
  | .piece p => .ok (b.add (.piece p))
  | .repetition least most isLazy => b.repeatLast least most isLazy
  | .opening o => b.openGroup o
  | .flags flags => .ok { b.add .flags with flags := flags }
  | .bar => .ok { b with level := b.level.bar }
  | .close => b.close

def finish (b : Builder) : Except PatternError Piece :=
  match b.enclosing with
  | [] => .ok b.level.whole
  | _ => .error .unclosedGroup

/-- Reads tokens to the end of the text. The first argument bounds their number; each takes at
least one character. -/
def read : Nat → Builder → List Char → Except PatternError Piece
  | 0, b, _ => b.finish
  | n + 1, b, cs => do
    match ← readToken b.flags cs with
    | none => b.finish
    | some (t, rest) => read n (← b.push t) rest

end Builder

def depthLimit : Nat := 250

/-- The largest size allowed: as many steps of 32 bytes as there are in 10 MiB. -/
def sizeLimit : Nat := 10 * 1024 * 1024 / 32

def compileTree (flags : Flags) (source : List Char) : Except PatternError Node := do
  let whole ← Builder.read source.length (.start flags) source
  if depthLimit < whole.depth then .error .tooDeep
  else if sizeLimit < whole.node.size then .error .tooLarge
  else return whole.node

namespace Node

def beginnings (n : Node) (text : List Char) : List Nat :=
  n.starts text.toArray (List.range (text.length + 1))

def isMatch (n : Node) (text : List Char) : Bool := !(n.beginnings text).isEmpty

def search? (n : Node) (text : List Char) : Option (Nat × Nat × Groups) := do
  let first ← (n.beginnings text).min?
  let (last, groups) ← n.follow text.toArray (List.range (text.length + 1)) first
    (List.replicate n.groupCount none)
  return (first, last, groups)

def captures? (n : Node) (text : List Char) : Option (List (Option (List Char))) :=
  (n.search? text).map fun (first, last, groups) =>
    (groups.set 0 (some (first, last))).map fun span =>
      span.map fun (first, last) => (text.take last).drop first

def regex (n : Node) : Regex := ⟨n.isMatch, n.captures?⟩

end Node

def treeEngine : Engine where
  Error := PatternError
  compile flags source := Node.regex <$> compileTree flags source

end StreamParser.Regex
