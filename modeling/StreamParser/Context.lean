import StreamParser.Position
import StreamParser.Text.Bytes

/-!
# Parse contexts

A context is a parse in progress: the whole input, how many of its bytes are consumed, the
position reached, the caller's state, the nest level and the options in force. The text still to
be read is `remaining`. A context is `Placed` when its offset falls on a character boundary of its
input; every context made by `start` is, and `consume` keeps it so (`remaining?_consume`).
-/

namespace StreamParser

/-- What a caller sets: `nestLimit` is the level at which nesting is refused, if any;
`bumpOnMismatch` reports a character that was not the expected one a column past its place. -/
structure Options where
  nestLimit : Option Nat := none
  bumpOnMismatch : Bool := true
  deriving DecidableEq

/-- A parse in progress: `offset` bytes of `input` are consumed and `position` is reached. -/
structure Context (σ : Type) where
  input : List Char
  offset : Nat
  position : Position
  state : σ
  nestLevel : Nat
  options : Options
  deriving BEq

namespace Context

variable {σ : Type}

def start (input : List Char) (state : σ) : Context σ :=
  ⟨input, 0, .start defaultStream, state, 0, {}⟩

def withStream (c : Context σ) (stream : String) : Context σ :=
  { c with position := { c.position with stream := stream } }

def withOptions (c : Context σ) (options : Options) : Context σ := { c with options := options }

def withState (c : Context σ) (state : σ) : Context σ := { c with state := state }

def withLevel (c : Context σ) (level : Nat) : Context σ := { c with nestLevel := level }

/-- What is left of the input, if the offset is a place in it. -/
def remaining? (c : Context σ) : Option (List Char) := dropBytes? c.offset c.input

def remaining (c : Context σ) : List Char := c.remaining?.getD []

/-- The offset falls on a character boundary of the input. -/
def Placed (c : Context σ) : Prop := c.remaining?.isSome

instance (c : Context σ) : Decidable c.Placed := inferInstanceAs (Decidable (_ = true))

/-- No byte is left. This looks at lengths only, so it also answers for an offset inside a
character. -/
def isEmpty (c : Context σ) : Bool := byteSize c.input ≤ c.offset

def head? (c : Context σ) : Option Char := c.remaining.head?

def tail (c : Context σ) : List Char := c.remaining.tail

/-- The context after `taken`, which is meant to be the first part of what remains. -/
def consume (c : Context σ) (taken : List Char) : Context σ :=
  { c with offset := c.offset + byteSize taken, position := c.position.advance taken }

def advance (c : Context σ) (n : Nat) : Context σ := c.consume (c.remaining.take n)

/-- The context in which exactly `rest` remains, if what remains now ends with it. -/
def advanceTo? (c : Context σ) (rest : List Char) : Option (Context σ) :=
  if rest.isSuffixOf c.remaining then
    some (c.consume (c.remaining.take (c.remaining.length - rest.length)))
  else none

@[simp] theorem remaining?_start (input : List Char) (s : σ) :
    (start input s).remaining? = some input := by simp [start, remaining?]

theorem remaining_eq {c : Context σ} {rest : List Char} (h : c.remaining? = some rest) :
    c.remaining = rest := by simp [remaining, h]

@[simp] theorem consume_nil (c : Context σ) : c.consume [] = c := by simp [consume]

theorem consume_append (c : Context σ) (a b : List Char) :
    c.consume (a ++ b) = (c.consume a).consume b := by
  simp [consume, Position.advance_append, Nat.add_assoc]

theorem remaining?_consume {c : Context σ} {taken rest : List Char}
    (h : c.remaining? = some (taken ++ rest)) : (c.consume taken).remaining? = some rest := by
  obtain ⟨before, hi, ho⟩ := dropBytes?_eq_some_iff.1 h
  refine dropBytes?_eq_some_iff.2 ⟨before ++ taken, ?_, ?_⟩
  · simp [consume, hi]
  · simp [consume, ho]

theorem advanceTo?_suffix {c : Context σ} {taken rest : List Char}
    (h : c.remaining? = some (taken ++ rest)) : c.advanceTo? rest = some (c.consume taken) := by
  have isSuffix : rest.isSuffixOf (taken ++ rest) = true :=
    List.isSuffixOf_iff_suffix.2 ⟨taken, rfl⟩
  simp [advanceTo?, remaining_eq h, isSuffix]

end Context

end StreamParser
