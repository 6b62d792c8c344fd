import StreamParser.CharClass
import StreamParser.Grammar
import StreamParser.Parser.Custom
import StreamParser.Regex.Reader
import StreamParser.Script.Function

/-!
# Described parsers

A term describes a parser whose values and state are dynamic. `Term.grammar` is the grammar it
stands for; its references go to rules by name. A pattern can be refused twice: by whoever
compiles it, with flags of their own, or when it is enclosed, where those flags are gone.
-/

namespace StreamParser.Script

inductive Term where
  | char (c : Char)
  | notChar (c : Char)
  | satisfy (label : String) (set : List Char)
  | class (k : CharClass)
  | endOfStream
  | or (a b : Term)
  | choice (items : List Term)
  | anyOf (chars : List Char)
  | anyIn (first last : Char)
  | pair (a b : Term)
  | terminated (a b : Term)
  | preceded (a b : Term)
  | map (f : Unary) (a : Term)
  | apply (f : Binary) (a b : Term)
  | lift₂ (f : Binary) (a b : Term)
  | just (v : Value)
  | sequence (items : List Term)
  | many (a : Term)
  | many1 (a : Term)
  | optional (a : Term)
  | nested (a : Term)
  | ref (rule : String)
  | state
  | update (f : Change)
  | literal (text : String)
  | space
  | skipSpaces
  | literalThenSpace (text : String)
  | charsUntil (delimiter : Char)
  | between (left middle right : Term)
  | pattern (p : Pattern) (group : Option Nat)
  | fail (message : String)
  | custom (message : String)
  | take (n : Nat)
  | leaving (rest : String) (v : Value)
  | peek (a : Term)
  | keepState (a : Term)

inductive Stage where
  | compile
  | enclose
  deriving DecidableEq

namespace Term

def ofPattern (flags : Regex.Flags) (source : String) (group : Option Nat) : Except Stage Term :=
  match Regex.treeEngine.compile flags source.toList with
  | .error _ => .error .compile
  | .ok _ =>
    match Pattern.ofSource Regex.treeEngine source.toList with
    | .error _ => .error .enclose
    | .ok p => .ok (.pattern p group)

def matchValue (group : Option Nat) (m : PatternMatch) : Value :=
  match group with
  | some k => .ofText? (m.group? k)
  | none => .record [("groups", .list (m.groups.map .ofText?)), ("text", .text m.text)]

end Term

/-- Grammars over dynamic values that may hold a caller's own parsers; rules go by name. -/
abbrev Dynamic := Grammar Unit (fun _ : String => Value) Value Value

namespace Term

def leaf {α : Type} (p : Parser Value α) : Grammar Unit (fun _ : String => Value) Value α :=
  .foreign () (fun _ => p) (.just ())

mutual

/-- The grammar of a term. A custom error raised in it bears the given occasion. -/
def grammar (occasion : Nat) : Term → Dynamic
  | char c => .map .char (.char c)
  | notChar c => .map .char (.notChar c)
  | satisfy label set => .map .char (.satisfy label set.contains)
  | .class k => .map .char (.satisfy k.name k.contains)
  | endOfStream => .map .unit .endOfStream
  | or a b => .or (a.grammar occasion) (b.grammar occasion)
  | choice items => .choice (grammars occasion items)
  | anyOf chars => .map .char (.anyCharOf chars)
  | anyIn first last => .map .char (.anyCharIn first last)
  | pair a b => .map .ofPair (.pair (a.grammar occasion) (b.grammar occasion))
  | terminated a b => .terminated (a.grammar occasion) (b.grammar occasion)
  | preceded a b => .preceded (a.grammar occasion) (b.grammar occasion)
  | map f a => .map f.apply (a.grammar occasion)
  | apply f a b => .apply (.map f.apply (a.grammar occasion)) (b.grammar occasion)
  | lift₂ f a b => .lift₂ f.apply (a.grammar occasion) (b.grammar occasion)
  | just v => .just v
  | sequence items => .map .list (.sequence (grammars occasion items))
  | many a => .map .list (.many (a.grammar occasion))
  | many1 a => .map .list (.many1 (a.grammar occasion))
  | optional a => .map .ofOption (.optional (a.grammar occasion))
  | nested a => .nested (a.grammar occasion)
  | ref rule => .ref rule
  | state => .state
  | update f => .map .unit (.update f.apply)
  | literal text => .map .text (.literal text)
  | space => .map .char .space
  | skipSpaces => .map .unit .skipSpaces
  | literalThenSpace text => .map .text (.literalThenSpace text)
  | charsUntil d => .map .text (.charsUntil d)
  | between a b c => .between (a.grammar occasion) (b.grammar occasion) (c.grammar occasion)
  | pattern p group => .map (matchValue group) (.pattern p)
  | fail message => leaf (Parser.fail (.stated message))
  | custom message => leaf (Parser.failCustom ⟨occasion, message⟩)
  | take n => .map .text (leaf (Parser.take n))
  | leaving rest v => leaf (Parser.leaving rest.toList v)
  | peek a => .foreign () Parser.peek (a.grammar occasion)
  | keepState a => .foreign () Parser.keepState (a.grammar occasion)

def grammars (occasion : Nat) : List Term → List Dynamic
  | [] => []
  | a :: as => a.grammar occasion :: grammars occasion as

end

end Term

abbrev Rules := List (String × Term)

/-- How deep rules are unfolded before a run counts as unfinished. -/
def depthBound : Nat := 100000

def Rules.grammar (rules : Rules) (occasion : Nat) (name : String) : Dynamic :=
  match rules.lookup name with
  | some t => t.grammar occasion
  | none => Term.leaf (Parser.fail (.stated s!"no rule {name}"))

def Term.run (rules : Rules) (occasion : Nat) (t : Term) : Parser Value Value :=
  Grammar.run (rules.grammar occasion) depthBound (t.grammar occasion)

end StreamParser.Script
