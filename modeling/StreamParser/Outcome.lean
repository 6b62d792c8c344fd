import StreamParser.Context
import StreamParser.Error
import StreamParser.Run

/-!
# Outcomes

An outcome is a success with a value or a failure with an error; either carries a context.
Contexts make outcomes: `succeed` and `fail` carry the context itself, `succeedWith` one that has
advanced to a given rest.
-/

namespace StreamParser

inductive Outcome (σ α : Type) where
  | success (value : α) (context : Context σ)
  | failure (error : ParseError) (context : Context σ)

namespace Outcome

variable {σ α β : Type}

def context : Outcome σ α → Context σ
  | .success _ c => c
  | .failure _ c => c

def value? : Outcome σ α → Option α
  | .success v _ => some v
  | .failure .. => none

def error? : Outcome σ α → Option ParseError
  | .success .. => none
  | .failure e _ => some e

def isSuccess : Outcome σ α → Bool
  | .success .. => true
  | .failure .. => false

def map (f : α → β) : Outcome σ α → Outcome σ β
  | .success v c => .success (f v) c
  | .failure e c => .failure e c

def withLevel (level : Nat) : Outcome σ α → Outcome σ α
  | .success v c => .success v (c.withLevel level)
  | .failure e c => .failure e (c.withLevel level)

instance [BEq σ] [BEq α] : BEq (Outcome σ α) where
  beq
    | .success v c, .success w d => v == w && c == d
    | .failure e c, .failure f d => e == f && c == d
    | _, _ => false

@[simp] theorem map_success (f : α → β) (v : α) (c : Context σ) :
    (success v c).map f = .success (f v) c := rfl

@[simp] theorem map_failure (f : α → β) (e : ParseError) (c : Context σ) :
    (failure e c : Outcome σ α).map f = .failure e c := rfl

end Outcome

namespace Context

variable {σ α β : Type}

/-- Reads what remains; halts if the offset is no place in the input. -/
def reading (c : Context σ) (f : List Char → Run β) : Run β :=
  match c.remaining? with
  | some rest => f rest
  | none => .halt .misplaced

def succeed (c : Context σ) (v : α) : Outcome σ α := .success v c

def failWith (c : Context σ) (e : ParseError) : Outcome σ α := .failure e c

def fail (c : Context σ) (cause : Cause) : Outcome σ α :=
  c.failWith (.located ⟨c.position, cause⟩)

/-- A success that leaves `rest`; a failure that consumes nothing if what remains does not end so.
-/
def succeedWith (c : Context σ) (v : α) (rest : List Char) : Run (Outcome σ α) :=
  c.reading fun _ =>
    match c.advanceTo? rest with
    | some d => return .success v d
    | none => return c.fail .notTheRest

/-- A success at the place that `other` has reached, with all else as it is here. -/
def succeedFrom (c : Context σ) (v : α) (other : Context σ) : Outcome σ α :=
  .success v { c with offset := other.offset, position := other.position }

/-- One level deeper, unless the level is the limit: then the error, and an event in the trace. -/
def nest (c : Context σ) : Run (Except LocatedError (Context σ)) :=
  if c.options.nestLimit = some c.nestLevel then do
    Run.log (.nestLimit c.nestLevel c.position)
    return .error ⟨c.position, .nestLimit⟩
  else return .ok (c.withLevel (c.nestLevel + 1))

theorem reading_of_remaining? {c : Context σ} {rest : List Char} (h : c.remaining? = some rest)
    (f : List Char → Run β) : c.reading f = f rest := by simp [reading, h]

theorem succeedWith_suffix {c : Context σ} {taken rest : List Char}
    (h : c.remaining? = some (taken ++ rest)) (v : α) :
    c.succeedWith v rest = pure (.success v (c.consume taken)) := by
  simp [succeedWith, reading, h, advanceTo?_suffix h]

end Context

end StreamParser
