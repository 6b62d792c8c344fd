import StreamParser.Regex.Node

/-!
# Searching

Two passes over the tree. `starts` goes backwards: from the places where a match may end to those
where it can begin. `follow` goes forwards from such a place and takes, at each choice, the
preferred branch from which the end can still be reached, so it never turns back; it notes where
groups matched.

Repetition without upper bound takes its first round as the body allows, even empty, but an empty
first round is also the last; later rounds must consume something.
-/

namespace StreamParser.Regex

/-- The elements not marked in `seen`, each once, and `seen` with them marked. -/
def mark : Nat → List Nat → List Nat × Nat
  | seen, [] => ([], seen)
  | seen, i :: is =>
    if seen.testBit i then mark seen is
    else
      let (fresh, seen) := mark (seen ||| 1 <<< i) is
      (i :: fresh, seen)

/-- The places reached from `frontier` in at most `rounds` steps, each place once. -/
def spread (step : List Nat → List Nat) : (rounds seen : Nat) → (frontier : List Nat) → List Nat
  | 0, _, frontier => frontier
  | rounds + 1, seen, frontier =>
    if frontier.isEmpty then []
    else
      let (fresh, seen) := mark seen (step frontier)
      frontier ++ spread step rounds seen fresh

def within (step : List Nat → List Nat) (rounds : Nat) (places : List Nat) : List Nat :=
  let (fresh, seen) := mark 0 places
  spread step rounds seen fresh

def exactly (step : List Nat → List Nat) : Nat → List Nat → List Nat
  | 0, places => places
  | n + 1, places => if places.isEmpty then [] else exactly step n (step places)

/-- The places from which the tree matches up to one of `ends`. -/
def Node.starts (w : Array Char) : Node → (ends : List Nat) → List Nat
  | empty, ends => ends
  | set chars, ends =>
    ends.filterMap fun j =>
      if 0 < j ∧ (w[j - 1]?).any chars.contains then some (j - 1) else none
  | assert a, ends => ends.filter (a.holdsAt w)
  | group _ a, ends => a.starts w ends
  | seq a b, ends => a.starts w (b.starts w ends)
  | alt a b, ends => (mark 0 (a.starts w ends ++ b.starts w ends)).1
  | rep _ least none a, ends =>
    exactly (a.starts w) least (within (a.starts w) (w.size + 1) ends)
  | rep _ least (some most) a, ends =>
    exactly (a.starts w) least (within (a.starts w) (most - least) ends)

abbrev Groups := List (Option (Nat × Nat))

abbrev Follow := (ends : List Nat) → Nat → Groups → Option (Nat × Groups)

def stay : Follow := fun ends i g => if ends.contains i then some (i, g) else none

def firstOf (more less : Option (Nat × Groups)) (greedy : Bool) : Option (Nat × Groups) :=
  if greedy then more.or less else less.or more

/-- The body once for each of `n` rounds, then `next`. `step` is the body backwards, and `ends`
are the places where the rounds may end. -/
def followExactly (step : List Nat → List Nat) (body : Follow) (ends : List Nat)
    (next : Nat → Groups → Option (Nat × Groups)) : Nat → Nat → Groups → Option (Nat × Groups)
  | 0, i, g => next i g
  | n + 1, i, g => do
    let (j, g) ← body (exactly step n ends) i g
    followExactly step body ends next n j g

def followUpTo (step : List Nat → List Nat) (body : Follow) (greedy : Bool) (ends : List Nat) :
    Nat → Nat → Groups → Option (Nat × Groups)
  | 0, i, g => stay ends i g
  | n + 1, i, g =>
    let more := do
      let (j, g) ← body (within step n ends) i g
      followUpTo step body greedy ends n j g
    firstOf more (stay ends i g) greedy

/-- Any number of further rounds, each of which consumes something. `loop` holds the places from
which rounds can lead to `ends`; the bound is the number of characters left to consume. -/
def followMore (body : Follow) (greedy : Bool) (loop ends : List Nat) :
    Nat → Nat → Groups → Option (Nat × Groups)
  | 0, i, g => stay ends i g
  | n + 1, i, g =>
    let more := do
      let (j, g) ← body (loop.filter (· ≠ i)) i g
      followMore body greedy loop ends n j g
    firstOf more (stay ends i g) greedy

def followRound (body : Follow) (greedy : Bool) (loop ends : List Nat) (size : Nat)
    (i : Nat) (g : Groups) : Option (Nat × Groups) := do
  let (j, g) ← body (loop.filter fun j => j ≠ i || ends.contains i) i g
  if j = i then some (j, g) else followMore body greedy loop ends size j g

def Node.follow (w : Array Char) : Node → Follow
  | empty, ends, i, g => stay ends i g
  | set chars, ends, i, g =>
    if (w[i]?).any chars.contains then stay ends (i + 1) g else none
  | assert a, ends, i, g => if a.holdsAt w i then stay ends i g else none
  | group k a, ends, i, g => do
    let (j, g) ← a.follow w ends i g
    return (j, g.set k (some (i, j)))
  | seq a b, ends, i, g => do
    let (j, g) ← a.follow w (b.starts w ends) i g
    b.follow w ends j g
  | alt a b, ends, i, g => (a.follow w ends i g).or (b.follow w ends i g)
  | rep greedy least none a, ends, i, g =>
    let loop := within (a.starts w) (w.size + 1) ends
    let round := followRound (a.follow w) greedy loop ends w.size
    match least with
    | 0 => firstOf (round i g) (stay ends i g) greedy
    | least + 1 => followExactly (a.starts w) (a.follow w) (a.starts w loop) round least i g
  | rep greedy least (some most) a, ends, i, g =>
    let rest := within (a.starts w) (most - least) ends
    followExactly (a.starts w) (a.follow w) rest
      (followUpTo (a.starts w) (a.follow w) greedy ends (most - least)) least i g

end StreamParser.Regex
