import StreamParser.Trace

/-!
# Runs

A run has a trace and, unless it halts, an answer. It halts in two cases only: the text of a
context is read whose offset is no place in its input, or the bound given to a recursion is used
up. What was logged before stays logged. `Run` is a lawful monad: traces are joined in order.
-/

namespace StreamParser

inductive Halt where
  /-- The offset of a context lies past its input or inside a character. -/
  | misplaced
  /-- The bound on a recursion was too small for an answer. -/
  | unfinished
  deriving DecidableEq

structure Run (β : Type) where
  trace : List Event
  result : Except Halt β

namespace Run

variable {α β γ : Type}

@[ext] theorem ext {x y : Run β} (trace : x.trace = y.trace) (result : x.result = y.result) :
    x = y := by
  cases x; cases y; simp_all

protected def pure (b : β) : Run β := ⟨[], .ok b⟩

protected def bind (x : Run α) (f : α → Run β) : Run β :=
  match x.result with
  | .ok a => ⟨x.trace ++ (f a).trace, (f a).result⟩
  | .error h => ⟨x.trace, .error h⟩

instance : Monad Run where
  pure := Run.pure
  bind := Run.bind

def log (e : Event) : Run Unit := ⟨[e], .ok ()⟩

def halt (h : Halt) : Run β := ⟨[], .error h⟩

@[simp] theorem pure_eq (b : β) : (pure b : Run β) = ⟨[], .ok b⟩ := rfl

@[simp] theorem ok_bind (t : List Event) (a : α) (f : α → Run β) :
    (⟨t, .ok a⟩ >>= f : Run β) = ⟨t ++ (f a).trace, (f a).result⟩ := rfl

@[simp] theorem error_bind (t : List Event) (h : Halt) (f : α → Run β) :
    (⟨t, .error h⟩ >>= f : Run β) = ⟨t, .error h⟩ := rfl

instance : LawfulMonad Run := LawfulMonad.mk' Run
  (by rintro α ⟨t, _ | a⟩ <;> simp [Functor.map, Run.bind, Run.pure])
  (by intro α β a f; simp)
  (by rintro α β γ ⟨t, _ | a⟩ f g
      · rfl
      · simp only [ok_bind]
        rcases f a with ⟨u, _ | b⟩ <;> simp)
  (by rintro α β x y; rfl)
  (by rintro α β x y; rfl)
  (by rintro α β f x; rfl)
  (by rintro α β f x; rfl)

end Run

end StreamParser
