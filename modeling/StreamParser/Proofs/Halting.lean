import StreamParser.Proofs.Depth

/-!
# Where runs halt

On a context whose text can be read no library parser halts as misplaced, and a repetition halts only
where one of its rounds does. What is left to show of a grammar, for its runs to come to outcomes,
is that they end.
-/

namespace StreamParser

namespace Parser

variable {σ α : Type} {p : Parser σ α} {c : Context σ}

def Forward (p : Parser σ α) : Prop :=
  ∀ {c t v d}, p c = ⟨t, .ok (.success v d)⟩ → c.Reaches d

/-- A repetition does not use up its bound, since each round that goes on leaves less to read. It
halts only where a round does, or because nothing can be read. -/
theorem halts_of_repeated_halts (hf : p.Forward) {n : Nat} (hn : byteSize c.remaining ≤ n) {h : Halt}
    (hh : (repeated p n c).result = .error h) :
    (∃ d, c.Reaches d ∧ (p d).result = .error h) ∨ (h = .misplaced ∧ ¬ c.Placed) := by
  induction n generalizing c with
  | zero =>
    rcases repeated_halts hh with hc | ⟨t, v, d, hv, ⟨hm, rfl⟩ | ⟨hm, -, -⟩ | ⟨m, -, hzero, -⟩⟩
    · exact .inl ⟨c, .refl c, hc⟩
    · exact .inr ⟨rfl, fun hc => hm ⟨(hf hv).placed hc, hc⟩⟩
    · have hle := (hf hv).byteSize_le
      have hne := hm.2.2
      omega
    · cases hzero
  | succ n ih =>
    rcases repeated_halts hh with hc | ⟨t, v, d, hv, ⟨hm, rfl⟩ | ⟨-, hzero, -⟩ | ⟨m, hm, hsucc, hd⟩⟩
    · exact .inl ⟨c, .refl c, hc⟩
    · exact .inr ⟨rfl, fun hc => hm ⟨(hf hv).placed hc, hc⟩⟩
    · cases hzero
    · cases hsucc
      have hle := (hf hv).byteSize_le
      have hne := hm.2.2
      have hbound : byteSize d.remaining ≤ n := by omega
      rcases ih hbound hd with ⟨e, hde, he⟩ | ⟨rfl, hnot⟩
      · exact .inl ⟨e, (hf hv).trans hde, he⟩
      · exact .inr ⟨rfl, fun hc => hnot ((hf hv).placed hc)⟩

end Parser

namespace Grammar

variable {ρ : Type} {τ : ρ → Type} {σ α : Type} {rules : (r : ρ) → Grammar Empty τ σ (τ r)}

theorem run_forward (depth : Nat) (g : Grammar Empty τ σ α) : (run rules depth g).Forward :=
  fun h => (yields_of_run h).reaches

/-- `P g c` is enough for `g` not to halt with `h` on `c`: it passes to the parts of `g`, on every
context they are run on, and no leaf or reference halts so where it holds. -/
structure Prevents (rules : (r : ρ) → Grammar Empty τ σ (τ r)) (depth : Nat) (h : Halt)
    (P : {α : Type} → Grammar Empty τ σ α → Context σ → Prop) : Prop where
  placed {α : Type} {g : Grammar Empty τ σ α} {c : Context σ} (hg : P g c) :
    h = .misplaced → c.Placed
  or {α : Type} {a b : Grammar Empty τ σ α} {c : Context σ} (hg : P (.or a b) c) : P a c ∧ P b c
  pair {α β : Type} {a : Grammar Empty τ σ α} {b : Grammar Empty τ σ β} {c : Context σ}
    (hg : P (.pair a b) c) :
    P a c ∧ ∀ t v d, run rules depth a c = ⟨t, .ok (.success v d)⟩ → P b d
  andThen {α β : Type} {a : Grammar Empty τ σ α} {b : Grammar Empty τ σ β} {c : Context σ}
    (hg : P (.andThen a b) c) :
    P a c ∧ ∀ t v d, run rules depth a c = ⟨t, .ok (.success v d)⟩ → P b d
  map {α β : Type} {f : α → β} {a : Grammar Empty τ σ α} {c : Context σ} (hg : P (.map f a) c) :
    P a c
  many {α : Type} {a : Grammar Empty τ σ α} {c d : Context σ} (hg : P (.many a) c)
    (hd : c.Reaches d) : P a d
  many1 {α : Type} {a : Grammar Empty τ σ α} {c d : Context σ} (hg : P (.many1 a) c)
    (hd : c.Reaches d) : P a d
  optional {α : Type} {a : Grammar Empty τ σ α} {c : Context σ} (hg : P (.optional a) c) : P a c
  nested {α : Type} {a : Grammar Empty τ σ α} {c : Context σ} (hg : P (.nested a) c)
    (hl : c.options.nestLimit ≠ some c.nestLevel) : P a (c.withLevel (c.nestLevel + 1))
  ref {r : ρ} {c : Context σ} (hg : P (.ref r) c) : (unfold rules depth r c).result ≠ .error h

theorem Prevents.run_ne {depth : Nat} {h : Halt}
    {P : {α : Type} → Grammar Empty τ σ α → Context σ → Prop} (hP : Prevents rules depth h P)
    (g : Grammar Empty τ σ α) {c : Context σ} (hg : P g c) :
    (run rules depth g c).result ≠ .error h := by
  induction g generalizing c with
  | char | notChar | satisfy | endOfStream | noChoice | just | state | update | skipSpaces
  | charsUntil | pattern =>
    intro hh
    obtain ⟨hmis, hnot⟩ := leaf_halts rfl hh
    exact hnot (hP.placed hg hmis)
  | or a b iha ihb =>
    intro hh
    rcases Parser.or_halts.mp hh with ha | ⟨t, e, d, -, hb⟩
    · exact iha (hP.or hg).1 ha
    · exact ihb (hP.or hg).2 hb
  | pair a b iha ihb =>
    intro hh
    rcases Parser.pair_halts.mp hh with ha | ⟨t, v, d, ha, hb⟩
    · exact iha (hP.pair hg).1 ha
    · exact ihb ((hP.pair hg).2 t v d ha) hb
  | andThen a b iha ihb =>
    intro hh
    rcases Parser.andThen_halts.mp hh with ha | ⟨t, v, d, ha, hb⟩
    · exact iha (hP.andThen hg).1 ha
    · exact ihb ((hP.andThen hg).2 t v d ha) hb
  | map f a iha => exact fun hh => iha (hP.map hg) (Parser.map_halts.mp hh)
  | many a iha =>
    intro hh
    have hrep := Parser.many_halts.mp hh
    rcases Parser.halts_of_repeated_halts (run_forward depth a) (Nat.le_refl _) hrep with
      ⟨d, hd, ha⟩ | ⟨hmis, hnot⟩
    · exact iha (hP.many hg hd) ha
    · exact hnot (hP.placed hg hmis)
  | many1 a iha =>
    intro hh
    rcases Parser.many1_halts.mp hh with ha | ⟨t, v, d, ha, hrep⟩
    · exact iha (hP.many1 hg (.refl c)) ha
    · have hd : c.Reaches d := run_forward depth a ha
      rcases Parser.halts_of_repeated_halts (run_forward depth a) (Nat.le_refl _) hrep with
        ⟨e, he, ha⟩ | ⟨hmis, hnot⟩
      · exact iha (hP.many1 hg (hd.trans he)) ha
      · exact hnot (hd.placed (hP.placed hg hmis))
  | optional a iha => exact fun hh => iha (hP.optional hg) (Parser.optional_halts.mp hh)
  | nested a iha =>
    intro hh
    obtain ⟨hl, ha⟩ := Parser.nested_halts.mp hh
    exact iha (hP.nested hg hl) ha
  | ref r => exact hP.ref hg
  | foreign licence => exact licence.elim

theorem prevents_misplaced {depth : Nat}
    (hrules : ∀ r (d : Context σ), d.Placed → (unfold rules depth r d).result ≠ .error .misplaced) :
    Prevents rules depth .misplaced fun _ c => c.Placed where
  placed hc _ := hc
  or hc := ⟨hc, hc⟩
  pair {_ _ a _ _} hc := ⟨hc, fun _ _ _ ha => (run_forward depth a ha).placed hc⟩
  andThen {_ _ a _ _} hc := ⟨hc, fun _ _ _ ha => (run_forward depth a ha).placed hc⟩
  map hc := hc
  many hc hd := hd.placed hc
  many1 hc hd := hd.placed hc
  optional hc := hc
  nested hc _ := hc
  ref {r c} hc := hrules r c hc

theorem unfold_ne_misplaced (depth : Nat) (r : ρ) (c : Context σ) (hc : c.Placed) :
    (unfold rules depth r c).result ≠ .error .misplaced := by
  induction depth generalizing r c with
  | zero => exact fun hh => by cases hh
  | succ depth ih => exact (prevents_misplaced ih).run_ne (rules r) hc

theorem run_ne_misplaced (depth : Nat) (g : Grammar Empty τ σ α) {c : Context σ} (hc : c.Placed) :
    (run rules depth g c).result ≠ .error .misplaced :=
  (prevents_misplaced (unfold_ne_misplaced depth)).run_ne g hc

theorem exists_outcome_of_ends {depth : Nat} {g : Grammar Empty τ σ α} {c : Context σ}
    (hc : c.Placed) (hends : (run rules depth g c).Ends) :
    ∃ o, (run rules depth g c).result = .ok o := by
  cases hr : (run rules depth g c).result with
  | ok o => exact ⟨o, rfl⟩
  | error h =>
    cases h with
    | misplaced => exact absurd hr (run_ne_misplaced depth g hc)
    | unfinished => exact absurd hr hends

end Grammar

end StreamParser
