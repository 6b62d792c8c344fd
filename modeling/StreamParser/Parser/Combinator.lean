import StreamParser.Parser.Basic

/-!
# Combinators

Parsers made from parsers. They differ in the context a failure carries: `pair` and all that is
built from it report a failure at the context they began with, `sequence` where the failing part
began, and `or` hands on the failure of its last alternative.
-/

namespace StreamParser

namespace Parser

variable {σ α β γ : Type}

def or (p q : Parser σ α) : Parser σ α := fun c => do
  match ← p c with
  | .success v d => return .success v d
  | .failure .. =>
    Run.log (.fallback c.position)
    q c

def choice : List (Parser σ α) → Parser σ α
  | [] => fail .noAlternative
  | p :: ps => ps.foldl or p

def anyCharOf (chars : List Char) : Parser σ Char := choice (chars.map char)

/-- The characters from `first` to `last` in order. Surrogates are no characters. -/
def charsFrom (first last : Char) : List Char :=
  (List.range (last.toNat + 1 - first.toNat)).filterMap fun k =>
    if (first.toNat + k).isValidChar then some (Char.ofNat (first.toNat + k)) else none

def anyCharIn (first last : Char) : Parser σ Char := anyCharOf (charsFrom first last)

def pair (p : Parser σ α) (q : Parser σ β) : Parser σ (α × β) := fun c => do
  match ← p c with
  | .failure e _ => return c.failWith e
  | .success a d =>
    match ← q d with
    | .failure e _ => return c.failWith e
    | .success b d => return .success (a, b) d

def map (f : α → β) (p : Parser σ α) : Parser σ β := fun c => do
  return (← p c).map f

def terminated (p : Parser σ α) (q : Parser σ β) : Parser σ α := map Prod.fst (pair p q)

def preceded (p : Parser σ α) (q : Parser σ β) : Parser σ β := map Prod.snd (pair p q)

def apply (p : Parser σ (α → β)) (q : Parser σ α) : Parser σ β :=
  map (fun fa => fa.1 fa.2) (pair p q)

def lift₂ (f : α → β → γ) (p : Parser σ α) (q : Parser σ β) : Parser σ γ :=
  map (fun ab => f ab.1 ab.2) (pair p q)

def andThen (p : Parser σ α) (q : Parser σ β) : Parser σ (α × β) := fun c => do
  match ← p c with
  | .failure e d => return .failure e d
  | .success a d => return (← q d).map (a, ·)

def sequence : List (Parser σ α) → Parser σ (List α)
  | [] => just []
  | p :: ps => map (fun vs => vs.1 :: vs.2) (andThen p (sequence ps))

/-- Runs `left`, `middle`, `right`, with the value of `middle`. A failure of `left` is handed on
as it is, one of the others is reported where `left` ended. -/
def between (left : Parser σ α) (middle : Parser σ β) (right : Parser σ γ) : Parser σ β :=
  map Prod.snd (andThen left (terminated middle right))

/-- Values of `p` from `c` on, until it fails or its match consumes nothing; such a last match
leaves no trace in the answer. A match that progresses uses up one of `limit`. -/
def repeated (p : Parser σ α) (limit : Nat) (c : Context σ) : Run (List α × Context σ) := do
  match ← p c with
  | .failure .. => return ([], c)
  | .success v d =>
    d.reading fun after => c.reading fun before =>
      if byteSize after = byteSize before then return ([], c)
      else match limit with
        | 0 => .halt .unfinished
        | limit + 1 => do
          let (vs, e) ← repeated p limit d
          return (v :: vs, e)

def many (p : Parser σ α) : Parser σ (List α) := fun c => do
  let (vs, d) ← repeated p (byteSize c.remaining) c
  return .success vs d

/-- At least one value. The first may consume nothing. -/
def many1 (p : Parser σ α) : Parser σ (List α) := fun c => do
  match ← p c with
  | .failure e d => return .failure e d
  | .success v d =>
    let (vs, d) ← repeated p (byteSize d.remaining) d
    return .success (v :: vs) d

def optional (p : Parser σ α) : Parser σ (Option α) := fun c => do
  match ← p c with
  | .success v d => return .success (some v) d
  | .failure .. => return c.succeed none

/-- Runs `p` one nest level deeper. The level is restored however `p` ends. -/
def nested (p : Parser σ α) : Parser σ α := fun c => do
  match ← c.nest with
  | .error e => return c.failWith (.located e)
  | .ok inner => return (← p inner).withLevel c.nestLevel

end Parser

end StreamParser
