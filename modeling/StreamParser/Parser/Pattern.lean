import StreamParser.Parser.Basic
import StreamParser.Regex.Engine

/-!
# Matching a pattern

A pattern matches the longest first part of the remaining text that its regular expression matches
in full. For that the expression is enclosed: between the start and the end of the text, in a
group of its own. A comment that would swallow the end of the enclosure is ended by a newline.
-/

namespace StreamParser

structure Pattern where
  source : List Char
  enclosed : Regex

structure PatternMatch where
  text : String
  groups : List (Option String)
  deriving DecidableEq

namespace PatternMatch

def group? (m : PatternMatch) (k : Nat) : Option String := m.groups[k]?.join

end PatternMatch

namespace Pattern

def enclose (source : List Char) : List Char := "^(?:".toList ++ source ++ ")$".toList

/-- Compiles the enclosed source, under no flags but its own. -/
def ofSource (engine : Engine) (source : List Char) : Except engine.Error Pattern :=
  match engine.compile {} (enclose source) with
  | .ok r => .ok ⟨source, r⟩
  | .error e =>
    match engine.compile {} (enclose (source ++ ['\n'])) with
    | .ok r => .ok ⟨source, r⟩
    | .error _ => .error e

/-- The longest first part of the text that is not empty and matches, with what follows it. -/
def longest? (p : Pattern) (text : List Char) : Option (List Char × List Char) :=
  (((List.range text.length).map fun k => text.splitAt (k + 1)).filter
    fun parts => p.enclosed.isMatch parts.1).getLast?

def match? (p : Pattern) (text : List Char) : Option (PatternMatch × List Char) := do
  let (taken, rest) ← p.longest? text
  let groups ← p.enclosed.captures? taken
  return (⟨String.ofList taken, groups.map (·.map String.ofList)⟩, rest)

end Pattern

namespace Parser

def pattern {σ : Type} (p : Pattern) : Parser σ PatternMatch := fun c =>
  let source := String.ofList p.source
  if c.isEmpty then return c.fail (.patternAtEnd source)
  else
    c.reading fun remaining =>
      match p.match? remaining with
      | some (found, rest) => c.succeedWith found rest
      | none => return c.fail (.patternMismatch (String.ofList remaining) source)

end Parser

end StreamParser
