import StreamParser.Proofs.Coherence
import StreamParser.Proofs.Likeness

/-!
# Parsing depends on what remains

Two contexts with the same text to read, the same state, options and nest level have the same runs,
whatever their inputs, offsets, positions and streams are: the same outcome after the same number of
characters, and the same errors and events but for the stream and for where the counting began.
-/

namespace StreamParser

variable {σ α : Type}

def Cause.withStream (stream : String) : Cause → Cause
  | .endReached wanted _ => .endReached wanted stream
  | cause => cause

theorem Cause.withStream_of_isPlain {cause : Cause} (h : cause.isPlain = true) (stream : String) :
    cause.withStream stream = cause := by
  cases cause with
  | endReached => cases h
  | _ => rfl

def Event.withPlace (place : Position) : Event → Event
  | .mismatch expected found _ => .mismatch expected found place
  | .fallback _ => .fallback place
  | .nestLimit level _ => .nestLimit level place

/-- From `p₀` to `p` it is as many characters and as many lines as from `q₀` to `q`. -/
def Position.SameDistance (p₀ p q₀ q : Position) : Prop :=
  (p.index : Int) - p₀.index = (q.index : Int) - q₀.index ∧
    (p.line : Int) - p₀.line = (q.line : Int) - q₀.line

theorem Position.sameDistance_advance (p q : Position) (text : List Char) :
    p.SameDistance (p.advance text) q (q.advance text) := by
  unfold SameDistance
  rw [advance_index, advance_index, advance_line, advance_line]
  omega

namespace Context

/-- The same text remains to be read, in the same state, under the same options and on the same
level. -/
structure Alike (c d : Context σ) : Prop where
  placed : c.Placed
  remaining? : d.remaining? = c.remaining?
  state : d.state = c.state
  options : d.options = c.options
  nestLevel : d.nestLevel = c.nestLevel

theorem Alike.remaining {c d : Context σ} (h : c.Alike d) : d.remaining = c.remaining := by
  rw [Context.remaining, Context.remaining, h.remaining?]

def SameProgress (c c' d d' : Context σ) : Prop :=
  ∃ s k, k ≤ c.remaining.length ∧ c' = (c.withState s).advance k ∧ d' = (d.withState s).advance k

end Context

namespace Likeness

variable {c₀ d₀ : Context σ}

/-- Contexts, errors and events that are the same number of characters past `c₀` and past `d₀`. -/
def pastStart (c₀ d₀ : Context σ) : Likeness σ where
  contexts c d := ∃ s l k, k ≤ c₀.remaining.length ∧ c = ((c₀.advance k).withState s).withLevel l ∧
    d = ((d₀.advance k).withState s).withLevel l
  errors e f := ∃ cause k,
    (e = .located ⟨(c₀.advance k).position, cause⟩ ∧
      f = .located ⟨(d₀.advance k).position, cause.withStream d₀.position.stream⟩) ∨
    (e = .located ⟨(c₀.advance k).position.bumpColumn, cause⟩ ∧
      f = .located ⟨(d₀.advance k).position.bumpColumn, cause.withStream d₀.position.stream⟩)
  events e f := ∃ k, e.place = (c₀.advance k).position ∧ f = e.withPlace (d₀.advance k).position
  stray _ := False

theorem pastStart_remaining? (h₀ : c₀.Alike d₀) {c d : Context σ}
    (h : (pastStart c₀ d₀).contexts c d) : d.remaining? = c.remaining? := by
  obtain ⟨s, l, k, -, rfl, rfl⟩ := h
  simp only [Context.remaining?_withLevel, Context.remaining?_withState, Context.remaining?_advance,
    h₀.remaining?]

theorem pastStart_isEmpty (h₀ : c₀.Alike d₀) {c d : Context σ}
    (h : (pastStart c₀ d₀).contexts c d) : d.isEmpty = c.isEmpty := by
  have hsame := pastStart_remaining? h₀ h
  obtain ⟨s, l, k, -, rfl, rfl⟩ := h
  have hr : (((c₀.advance k).withState s).withLevel l).remaining? =
      some (c₀.remaining.drop k) := by
    rw [Context.remaining?_withLevel, Context.remaining?_withState, Context.remaining?_advance,
      Context.remaining?_of_placed h₀.placed, Option.map_some]
  rw [Bool.eq_iff_iff, Context.isEmpty_iff hr, Context.isEmpty_iff (hsame.trans hr)]

theorem pastStart_consume (h₀ : c₀.Alike d₀) {c d : Context σ} {taken rest : List Char}
    (h : (pastStart c₀ d₀).contexts c d) (hr : c.remaining? = some (taken ++ rest)) :
    (pastStart c₀ d₀).contexts (c.consume taken) (d.consume taken) := by
  rw [Context.consume_eq_advance hr,
    Context.consume_eq_advance ((pastStart_remaining? h₀ h).trans hr)]
  have hlength : taken.length ≤ c.remaining.length := by
    rw [Context.remaining_eq hr, List.length_append]
    omega
  obtain ⟨s, l, k, hk, rfl, rfl⟩ := h
  refine ⟨s, l, k + taken.length, ?_, ?_, ?_⟩
  · simp only [Context.remaining_withLevel, Context.remaining_withState, Context.remaining_advance,
      List.length_drop] at hlength
    omega
  · rw [Context.advance_withLevel, Context.advance_withState, Context.advance_advance]
  · rw [Context.advance_withLevel, Context.advance_withState, Context.advance_advance]

theorem pastStart_errorAtMismatch (h₀ : c₀.Alike d₀) {c d : Context σ}
    (h : (pastStart c₀ d₀).contexts c d) (x y : Char) :
    (pastStart c₀ d₀).errors (.located ⟨c.mismatchPlace, .mismatch (.char x) y⟩)
      (.located ⟨d.mismatchPlace, .mismatch (.char x) y⟩) := by
  obtain ⟨s, l, k, -, rfl, rfl⟩ := h
  refine ⟨.mismatch (.char x) y, k, ?_⟩
  have hoptions : (((d₀.advance k).withState s).withLevel l).options =
      (((c₀.advance k).withState s).withLevel l).options := h₀.options
  rw [Context.mismatchPlace, Context.mismatchPlace, hoptions]
  split
  · exact .inr ⟨rfl, rfl⟩
  · exact .inl ⟨rfl, rfl⟩

theorem pastStart_lawful (h₀ : c₀.Alike d₀) : (pastStart c₀ d₀).Lawful where
  remaining?_eq h := pastStart_remaining? h₀ h
  isEmpty_eq h := pastStart_isEmpty h₀ h
  consume h hr := pastStart_consume h₀ h hr
  errorAtMismatch h x y := pastStart_errorAtMismatch h₀ h x y
  state_eq h := by
    obtain ⟨s, l, k, -, rfl, rfl⟩ := h
    rfl
  withState h s := by
    obtain ⟨s', l, k, hk, rfl, rfl⟩ := h
    exact ⟨s, l, k, hk, rfl, rfl⟩
  mismatch h x y := by
    obtain ⟨s, l, k, -, rfl, rfl⟩ := h
    exact ⟨k, rfl, rfl⟩
  fallback h := by
    obtain ⟨s, l, k, -, rfl, rfl⟩ := h
    exact ⟨k, rfl, rfl⟩
  error h cause hc := by
    obtain ⟨s, l, k, -, rfl, rfl⟩ := h
    exact ⟨cause, k, .inl ⟨rfl, by rw [Cause.withStream_of_isPlain hc]; rfl⟩⟩
  errorAtEnd h w := by
    obtain ⟨s, l, k, -, rfl, rfl⟩ := h
    refine ⟨_, k, .inl ⟨rfl, ?_⟩⟩
    have hstream : (((d₀.advance k).withState s).withLevel l).position.stream =
      d₀.position.stream := Position.advance_stream _ _
    rw [hstream]
    rfl

theorem pastStart_respectsNesting (h₀ : c₀.Alike d₀) : (pastStart c₀ d₀).RespectsNesting := by
  apply (pastStart_lawful h₀).respectsNesting
  · intro c d h
    obtain ⟨s, l, k, -, rfl, rfl⟩ := h
    exact congrArg Options.nestLimit h₀.options
  · intro c d h
    obtain ⟨s, l, k, -, rfl, rfl⟩ := h
    rfl
  · intro c d l h
    obtain ⟨s, l', k, hk, rfl, rfl⟩ := h
    exact ⟨s, l, k, hk, rfl, rfl⟩
  · intro c d h
    obtain ⟨s, l, k, -, rfl, rfl⟩ := h
    exact ⟨k, rfl, rfl⟩

theorem sameDistance_of_advance (h₀ : c₀.Alike d₀) (k : Nat) :
    c₀.position.SameDistance (c₀.advance k).position d₀.position (d₀.advance k).position := by
  rw [Context.position_advance, Context.position_advance, h₀.remaining]
  exact Position.sameDistance_advance _ _ _

theorem sameProgress_of_pastStart (h₀ : c₀.Alike d₀) {c d : Context σ}
    (h : (pastStart c₀ d₀).contexts c d) (hlevel : c.nestLevel = c₀.nestLevel) :
    c₀.SameProgress c d₀ d := by
  obtain ⟨s, l, k, hk, rfl, rfl⟩ := h
  have hl : l = c₀.nestLevel := hlevel
  refine ⟨s, k, hk, ?_, ?_⟩
  · rw [hl]
    rfl
  · rw [hl, ← h₀.nestLevel]
    rfl

theorem located_of_pastStart (h₀ : c₀.Alike d₀) {e f : ParseError}
    (h : (pastStart c₀ d₀).errors e f) :
    ∃ err err', e = .located err ∧ f = .located err' ∧
      err'.cause = err.cause.withStream d₀.position.stream ∧
      c₀.position.SameDistance err.position d₀.position err'.position := by
  obtain ⟨cause, k, ⟨rfl, rfl⟩ | ⟨rfl, rfl⟩⟩ := h
  · exact ⟨_, _, rfl, rfl, rfl, sameDistance_of_advance h₀ k⟩
  · -- a bump moves neither index nor line
    exact ⟨_, _, rfl, rfl, rfl, sameDistance_of_advance h₀ k⟩

end Likeness

namespace Grammar

variable {ρ : Type} {τ : ρ → Type} (rules : (r : ρ) → Grammar Empty τ σ (τ r))

/-- Runs on alike contexts correspond event by event, halt alike, and come to the same outcome as
far as the stream and the start of the counting do not show in it. -/
theorem run_of_alike {c d : Context σ} (h : c.Alike d) (depth : Nat) (g : Grammar Empty τ σ α) :
    List.Forall₂ (fun e f => f = e.withPlace f.place ∧
        c.position.SameDistance e.place d.position f.place)
      (run rules depth g c).trace (run rules depth g d).trace ∧
    match (run rules depth g c).result, (run rules depth g d).result with
    | .ok (.success v c'), .ok (.success w d') => w = v ∧ c.SameProgress c' d d'
    | .ok (.failure e c'), .ok (.failure f d') =>
      c.SameProgress c' d d' ∧ ∃ err err', e = .located err ∧ f = .located err' ∧
        err'.cause = err.cause.withStream d.position.stream ∧
        c.position.SameDistance err.position d.position err'.position
    | .error halt, .error halt' => halt' = halt
    | _, _ => False := by
  have hstart : (Likeness.pastStart c d).contexts c d := by
    refine ⟨c.state, c.nestLevel, 0, Nat.zero_le _, ?_, ?_⟩
    · rw [Context.advance_zero, Context.withState_self, Context.withLevel_self]
    · rw [Context.advance_zero, ← h.state, ← h.nestLevel, Context.withState_self,
        Context.withLevel_self]
  have hlike := like_run rules (Likeness.pastStart_lawful h)
    (Likeness.pastStart_respectsNesting h) depth g c d hstart
  rcases hlike with ⟨e, -, hstray⟩ | ⟨htrace, hanswer⟩
  · exact hstray.elim
  · constructor
    · refine htrace.imp fun e f hef => ?_
      obtain ⟨k, he, rfl⟩ := hef
      have hplace : (e.withPlace (d.advance k).position).place = (d.advance k).position := by
        cases e <;> rfl
      rw [hplace, he]
      exact ⟨rfl, Likeness.sameDistance_of_advance h k⟩
    · -- the level at the end, which the comparison leaves open, is the one at the start
      have hlevel (t : List Event) (o : Outcome σ α) (hr : run rules depth g c = ⟨t, .ok o⟩) :
          o.context.nestLevel = c.nestLevel := (yields_of_run hr).reaches.nestLevel_eq
      rcases hx : run rules depth g c with ⟨t, xr⟩
      rcases hy : run rules depth g d with ⟨u, yr⟩
      rw [hx, hy] at hanswer
      cases hanswer with
      | error => rfl
      | ok ho =>
        cases ho with
        | success h' => exact ⟨rfl, Likeness.sameProgress_of_pastStart h h' (hlevel t _ hx)⟩
        | failure he h' =>
          exact ⟨Likeness.sameProgress_of_pastStart h h' (hlevel t _ hx),
            Likeness.located_of_pastStart h he⟩

/-- The second context has another text before it, in another stream; the end is met in both after
two characters and told of each stream. -/
theorem parens_run_of_alike :
    let c := (Context.start ['x', '\n', '(', ')'] 0).advance 2
    let d := (Context.start ['(', ')'] 0).withStream "other"
    let g := andThen (update (· + 1)) (pair (ref ()) (char '!'))
    c.Alike d ∧ ∃ t u err err' c' d',
      run parens 3 g c = ⟨t, .ok (.failure (.located err) c')⟩ ∧
      run parens 3 g d = ⟨u, .ok (.failure (.located err') d')⟩ ∧
      err.position = ⟨defaultStream, 4, 2, 2⟩ ∧ err'.position = ⟨"other", 2, 1, 2⟩ ∧
      err'.cause = err.cause.withStream "other" ∧
      c.position.SameDistance err.position d.position err'.position ∧
      c.SameProgress c' d d' := by
  intro c d g
  have alike : c.Alike d := ⟨by decide, by decide, rfl, rfl, rfl⟩
  have ran : run parens 3 g c = ⟨_, .ok (.failure (.located _) _)⟩ := rfl
  have ran' : run parens 3 g d = ⟨_, .ok (.failure (.located _) _)⟩ := rfl
  have hboth := (run_of_alike parens alike 3 g).2
  rw [ran, ran'] at hboth
  obtain ⟨hprogress, err, err', he, hf, hcause, hdistance⟩ := hboth
  cases he
  cases hf
  exact ⟨alike, _, _, _, _, _, _, ran, ran', rfl, rfl, hcause, hdistance, hprogress⟩

end Grammar

end StreamParser
