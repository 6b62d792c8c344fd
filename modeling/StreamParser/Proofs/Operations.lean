import StreamParser.Proofs.Coherence

/-!
# Contexts in hand

A caller makes contexts from contexts, by the operations of a context and by running grammars, in any
order, and keeps them all. `Makes` is one such operation, `InHand` any finite number of them. Two
operations are left to the caller's care: to go on in one context from the place that another has
reached, and to replace the options. A `Usage` says which of these are made. What every operation keeps
then holds of every context in hand (`Kept.of_inHand`).
-/

namespace StreamParser

namespace Context

variable {σ α : Type}

def movedTo (c other : Context σ) : Context σ :=
  { c with offset := other.offset, position := other.position }

theorem reaches_advance (c : Context σ) (n : Nat) : c.Reaches (c.advance n) := by
  by_cases hn : n ≤ c.remaining.length
  · exact ⟨c.state, n, hn, rfl⟩
  · refine ⟨c.state, c.remaining.length, Nat.le_refl _, ?_⟩
    rw [withState_self, advance, advance, List.take_length, List.take_of_length_le (by omega)]

theorem reaches_of_advanceTo? {c d : Context σ} {rest : List Char} (h : c.advanceTo? rest = some d) :
    c.Reaches d := by
  unfold advanceTo? at h
  split at h
  · cases h
    exact reaches_advance c _
  · cases h

theorem reaches_of_succeedWith {c : Context σ} {v : α} {rest : List Char} {t : List Event}
    {o : Outcome σ α} (h : c.succeedWith v rest = ⟨t, .ok o⟩) : c.Reaches o.context := by
  unfold succeedWith reading at h
  split at h
  · split at h
    · rename_i d hd
      cases h
      exact reaches_of_advanceTo? hd
    · cases h
      exact .refl c
  · cases h

theorem nest_eq_ok {c d : Context σ} {t : List Event} (h : c.nest = ⟨t, .ok (.ok d)⟩) :
    c.options.nestLimit ≠ some c.nestLevel ∧ d = c.withLevel (c.nestLevel + 1) := by
  unfold nest at h
  split at h
  · cases h
  · rename_i hl
    cases h
    exact ⟨hl, rfl⟩

end Context

/-- Which contexts are moved to the place of which others, and which options are given to which
contexts. -/
structure Usage (σ : Type) where
  moves : Context σ → Context σ → Prop
  equips : Context σ → Options → Prop

def Usage.careless (σ : Type) : Usage σ := ⟨fun _ _ => True, fun _ _ => True⟩

variable {σ : Type} {u : Usage σ} {held : List (Context σ)} {P : Context σ → Prop}

/-- The context that one operation makes from contexts in hand. -/
inductive Makes (u : Usage σ) (held : List (Context σ)) : Context σ → Prop
  | start (input : List Char) (s : σ) : Makes u held (.start input s)
  | withStream {c : Context σ} (hc : c ∈ held) (stream : String) : Makes u held (c.withStream stream)
  | withOptions {c : Context σ} (hc : c ∈ held) {o : Options} (ho : u.equips c o) :
      Makes u held (c.withOptions o)
  | withState {c : Context σ} (hc : c ∈ held) (s : σ) : Makes u held (c.withState s)
  | advance {c : Context σ} (hc : c ∈ held) (hplaced : c.Placed) (n : Nat) :
      Makes u held (c.advance n)
  | advanceTo {c d : Context σ} (hc : c ∈ held) {rest : List Char}
      (hd : c.advanceTo? rest = some d) : Makes u held d
  | nest {c d : Context σ} (hc : c ∈ held) {t : List Event} (hd : c.nest = ⟨t, .ok (.ok d)⟩) :
      Makes u held d
  | succeed {c : Context σ} (hc : c ∈ held) {α : Type} (v : α) : Makes u held (c.succeed v).context
  | failWith {c : Context σ} (hc : c ∈ held) {α : Type} (e : ParseError) :
      Makes u held (c.failWith e : Outcome σ α).context
  | succeedWith {c : Context σ} (hc : c ∈ held) {α : Type} {v : α} {rest : List Char}
      {t : List Event} {o : Outcome σ α} (ho : c.succeedWith v rest = ⟨t, .ok o⟩) :
      Makes u held o.context
  | succeedFrom {c other : Context σ} (hc : c ∈ held) (hother : other ∈ held)
      (hmoves : u.moves c other) {α : Type} (v : α) : Makes u held (c.succeedFrom v other).context
  | parse {c : Context σ} (hc : c ∈ held) {ρ : Type} {τ : ρ → Type} {α : Type}
      {rules : (r : ρ) → Grammar Empty τ σ (τ r)} {depth : Nat} {g : Grammar Empty τ σ α}
      {t : List Event} {o : Outcome σ α} (ho : Grammar.run rules depth g c = ⟨t, .ok o⟩) :
      Makes u held o.context

/-- The contexts that any finite number of operations have made, the latest first. -/
inductive InHand (u : Usage σ) : List (Context σ) → Prop
  | none : InHand u []
  | more {held : List (Context σ)} {c : Context σ} (hheld : InHand u held) (hc : Makes u held c) :
      InHand u (c :: held)

structure Kept (u : Usage σ) (P : Context σ → Prop) : Prop where
  start (input : List Char) (s : σ) : P (.start input s)
  withStream {c : Context σ} (hc : P c) (stream : String) : P (c.withStream stream)
  withOptions {c : Context σ} (hc : P c) {o : Options} (ho : u.equips c o) : P (c.withOptions o)
  reaches {c d : Context σ} (hc : P c) (hd : c.Reaches d) : P d
  deeper {c : Context σ} (hc : P c) (hl : c.options.nestLimit ≠ some c.nestLevel) :
    P (c.withLevel (c.nestLevel + 1))
  movedTo {c other : Context σ} (hc : P c) (hother : P other) (hmoves : u.moves c other) :
    P (c.movedTo other)

theorem Kept.of_makes (h : Kept u P) (hheld : ∀ c ∈ held, P c) {d : Context σ}
    (hd : Makes u held d) : P d := by
  cases hd with
  | start input s => exact h.start input s
  | withStream hc stream => exact h.withStream (hheld _ hc) stream
  | withOptions hc ho => exact h.withOptions (hheld _ hc) ho
  | withState hc s => exact h.reaches (hheld _ hc) (.withState _ s)
  | advance hc _ n => exact h.reaches (hheld _ hc) (Context.reaches_advance _ n)
  | advanceTo hc hd => exact h.reaches (hheld _ hc) (Context.reaches_of_advanceTo? hd)
  | nest hc hd =>
    obtain ⟨hl, rfl⟩ := Context.nest_eq_ok hd
    exact h.deeper (hheld _ hc) hl
  | succeed hc v => exact hheld _ hc
  | failWith hc e => exact hheld _ hc
  | succeedWith hc ho => exact h.reaches (hheld _ hc) (Context.reaches_of_succeedWith ho)
  | succeedFrom hc hother hmoves v => exact h.movedTo (hheld _ hc) (hheld _ hother) hmoves
  | parse hc ho => exact h.reaches (hheld _ hc) (Grammar.yields_of_run ho).reaches

theorem Kept.of_inHand (h : Kept u P) (hheld : InHand u held) : ∀ c ∈ held, P c := by
  induction hheld with
  | none => exact fun c hc => by cases hc
  | more _ hmade ih =>
    rintro c (_ | ⟨_, hc⟩)
    · exact h.of_makes ih hmade
    · exact ih c hc

end StreamParser
