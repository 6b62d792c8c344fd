import StreamParser.Proofs.Leaf

/-!
# What the combinators do

For every combinator two statements over arbitrary parsers: how it comes to an outcome, as the
runs of its parts that it takes, and where it halts, which is only where one of them does. `many`
and `many1` also halt when the bound on their repetition is used up.
-/

namespace StreamParser

namespace Run

variable {α β : Type} {h : Halt}

theorem bind_eq_ok {x : Run α} {f : α → Run β} {t : List Event} {b : β} :
    x >>= f = ⟨t, .ok b⟩ ↔
      ∃ t₁ a t₂, x = ⟨t₁, .ok a⟩ ∧ f a = ⟨t₂, .ok b⟩ ∧ t = t₁ ++ t₂ := by
  constructor
  · intro hx
    obtain ⟨t₁, h | a⟩ := x
    · simp at hx
    · rw [ok_bind] at hx
      obtain ⟨htrace, hresult⟩ := Run.mk.inj hx
      exact ⟨t₁, a, (f a).trace, rfl, by rw [← hresult], htrace.symm⟩
  · intro hr
    obtain ⟨t₁, a, t₂, rfl, hf, rfl⟩ := hr
    rw [ok_bind, hf]

theorem bind_halts {x : Run α} {f : α → Run β} :
    (x >>= f).result = .error h ↔
      x.result = .error h ∨ ∃ t a, x = ⟨t, .ok a⟩ ∧ (f a).result = .error h := by
  obtain ⟨t₁, h₁ | a⟩ := x
  · simp
  · constructor
    · intro hf
      exact .inr ⟨t₁, a, rfl, hf⟩
    · intro hr
      rcases hr with hx | ⟨t, a', hx, hf⟩
      · cases hx
      · cases hx
        exact hf

@[simp] theorem pure_eq_ok {b b' : β} {t : List Event} :
    (pure b : Run β) = ⟨t, .ok b'⟩ ↔ t = [] ∧ b' = b := by
  simp [eq_comm]

@[simp] theorem pure_halts {b : β} : ¬ (pure b : Run β).result = .error h := by simp

theorem bind_of_pure {x : Run α} {f : α → Run β} {t : List Event} {a : α} {b : β}
    (hx : x = ⟨t, .ok a⟩) (hf : f a = pure b) : x >>= f = ⟨t, .ok b⟩ := by
  rw [hx, ok_bind, hf, pure_eq, List.append_nil]

theorem bind_pure_eq_ok {x : Run α} {f : α → β} {t : List Event} {b : β} :
    x >>= (fun a => pure (f a)) = ⟨t, .ok b⟩ ↔ ∃ a, x = ⟨t, .ok a⟩ ∧ b = f a := by
  constructor
  · intro hr
    obtain ⟨t₁, a, t₂, hx, hb, rfl⟩ := bind_eq_ok.mp hr
    obtain ⟨rfl, rfl⟩ := pure_eq_ok.mp hb
    exact ⟨a, by rw [hx, List.append_nil], rfl⟩
  · intro hr
    obtain ⟨a, hx, rfl⟩ := hr
    exact bind_of_pure hx rfl

theorem bind_pure_halts {x : Run α} {f : α → β} :
    (x >>= fun a => pure (f a)).result = .error h ↔ x.result = .error h := by
  rw [bind_halts]
  constructor
  · intro hr
    rcases hr with hx | ⟨t, a, -, hf⟩
    · exact hx
    · exact absurd hf pure_halts
  · exact .inl

theorem map_eq (g : α → β) (x : Run α) : g <$> x = ⟨x.trace, x.result.map g⟩ := by
  rcases x with ⟨t, h | a⟩
  · rfl
  · rw [map_eq_pure_bind, ok_bind, pure_eq, List.append_nil]
    rfl

theorem exists_of_isOk {x : Run β} (hx : x.result.isOk = true) : ∃ b, x = ⟨x.trace, .ok b⟩ := by
  obtain ⟨t, h | b⟩ := x
  · cases hx
  · exact ⟨b, rfl⟩

end Run

namespace Context

variable {σ : Type}

/-- Both can be read, and as much remains at `d` as at `c`. -/
def Stays (c d : Context σ) : Prop :=
  c.Placed ∧ d.Placed ∧ byteSize d.remaining = byteSize c.remaining

/-- Both can be read, and not as much remains at `d` as at `c`. -/
def Moves (c d : Context σ) : Prop :=
  c.Placed ∧ d.Placed ∧ byteSize d.remaining ≠ byteSize c.remaining

theorem Moves.consume {c : Context σ} {taken rest : List Char}
    (h : c.remaining? = some (taken ++ rest)) (hne : taken ≠ []) : c.Moves (c.consume taken) := by
  refine ⟨?_, ?_, Nat.ne_of_lt (byteSize_consume_lt h hne)⟩
  · rw [Placed, h, Option.isSome_some]
  · rw [Placed, remaining?_consume h, Option.isSome_some]

theorem reading_both {α : Type} (c d : Context σ) (x y : Run α) :
    (d.reading fun after => c.reading fun before =>
      if byteSize after = byteSize before then x else y) =
    if d.Placed ∧ c.Placed then
      if byteSize d.remaining = byteSize c.remaining then x else y
    else .halt .misplaced := by
  by_cases hd : d.Placed
  · by_cases hc : c.Placed
    · rw [if_pos ⟨hd, hc⟩, reading_of_remaining? (remaining?_of_placed hd),
        reading_of_remaining? (remaining?_of_placed hc)]
    · rw [if_neg (fun h => hc h.2), reading_of_remaining? (remaining?_of_placed hd),
        reading_of_misplaced (not_placed_iff.mp hc)]
  · rw [if_neg (fun h => hd h.1), reading_of_misplaced (not_placed_iff.mp hd)]

theorem stays_or_moves (c d : Context σ) : c.Stays d ∨ c.Moves d ∨ ¬ (d.Placed ∧ c.Placed) := by
  by_cases h : d.Placed ∧ c.Placed
  · by_cases hb : byteSize d.remaining = byteSize c.remaining
    · exact .inl ⟨h.2, h.1, hb⟩
    · exact .inr (.inl ⟨h.2, h.1, hb⟩)
  · exact .inr (.inr h)

end Context

namespace Outcome

variable {σ α β : Type}

@[simp] theorem context_map (f : α → β) (o : Outcome σ α) : (o.map f).context = o.context := by
  cases o <;> rfl

@[simp] theorem context_withLevel (l : Nat) (o : Outcome σ α) :
    (o.withLevel l).context = o.context.withLevel l := by
  cases o <;> rfl

@[simp] theorem error?_map (f : α → β) (o : Outcome σ α) : (o.map f).error? = o.error? := by
  cases o <;> rfl

@[simp] theorem error?_withLevel (l : Nat) (o : Outcome σ α) :
    (o.withLevel l).error? = o.error? := by
  cases o <;> rfl

@[simp] theorem isSuccess_map (f : α → β) (o : Outcome σ α) : (o.map f).isSuccess = o.isSuccess := by
  cases o <;> rfl

@[simp] theorem isSuccess_withLevel (l : Nat) (o : Outcome σ α) :
    (o.withLevel l).isSuccess = o.isSuccess := by
  cases o <;> rfl

end Outcome

namespace Parser

variable {σ α β γ : Type} {p : Parser σ α} {c : Context σ} {t : List Event} {h : Halt}

/-! ### Alternatives -/

theorem or_eq_ok {q : Parser σ α} {o : Outcome σ α} :
    or p q c = ⟨t, .ok o⟩ ↔
      (∃ v d, p c = ⟨t, .ok (.success v d)⟩ ∧ o = .success v d) ∨
      (∃ e d t₁ t₂, p c = ⟨t₁, .ok (.failure e d)⟩ ∧ q c = ⟨t₂, .ok o⟩ ∧
        t = t₁ ++ .fallback c.position :: t₂) := by
  constructor
  · intro hr
    obtain ⟨t₁, ⟨v, d⟩ | ⟨e, d⟩, t₂, hp, hq, rfl⟩ := Run.bind_eq_ok.mp hr
    · obtain ⟨rfl, rfl⟩ := Run.pure_eq_ok.mp hq
      exact .inl ⟨v, d, by rw [hp, List.append_nil], rfl⟩
    · obtain ⟨u, _, t₃, hlog, hq', rfl⟩ := Run.bind_eq_ok.mp hq
      cases hlog
      exact .inr ⟨e, d, t₁, t₃, hp, hq', rfl⟩
  · intro hr
    rcases hr with ⟨v, d, hp, rfl⟩ | ⟨e, d, t₁, t₂, hp, hq, rfl⟩
    · exact Run.bind_of_pure hp rfl
    · refine Run.bind_eq_ok.mpr ⟨t₁, _, _, hp, ?_, rfl⟩
      exact Run.bind_eq_ok.mpr ⟨[.fallback c.position], (), t₂, rfl, hq, rfl⟩

theorem or_halts {q : Parser σ α} :
    (or p q c).result = .error h ↔ (p c).result = .error h ∨
      ∃ t e d, p c = ⟨t, .ok (.failure e d)⟩ ∧ (q c).result = .error h := by
  simp only [or, Run.bind_halts]
  constructor
  · intro hr
    rcases hr with hp | ⟨t, ⟨v, d⟩ | ⟨e, d⟩, hp, hq⟩
    · exact .inl hp
    · exact absurd hq Run.pure_halts
    · rcases Run.bind_halts.mp hq with hlog | ⟨u, _, hlog, hq⟩
      · cases hlog
      · exact .inr ⟨t, e, d, hp, hq⟩
  · intro hr
    rcases hr with hp | ⟨t, e, d, hp, hq⟩
    · exact .inl hp
    · exact .inr ⟨t, _, hp, Run.bind_halts.mpr (.inr ⟨_, (), rfl, hq⟩)⟩

/-! ### Two in a row -/

theorem pair_eq_ok {q : Parser σ β} {o : Outcome σ (α × β)} :
    pair p q c = ⟨t, .ok o⟩ ↔
      (∃ e d, p c = ⟨t, .ok (.failure e d)⟩ ∧ o = .failure e c) ∨
      ∃ t₁ a d t₂, p c = ⟨t₁, .ok (.success a d)⟩ ∧ t = t₁ ++ t₂ ∧
        ((∃ e d', q d = ⟨t₂, .ok (.failure e d')⟩ ∧ o = .failure e c) ∨
          ∃ b d', q d = ⟨t₂, .ok (.success b d')⟩ ∧ o = .success (a, b) d') := by
  constructor
  · intro hr
    obtain ⟨t₁, ⟨a, d⟩ | ⟨e, d⟩, t₂, hp, hq, rfl⟩ := Run.bind_eq_ok.mp hr
    · obtain ⟨t₃, ⟨b, d'⟩ | ⟨e, d'⟩, t₄, hq', ho, rfl⟩ := Run.bind_eq_ok.mp hq
      · obtain ⟨rfl, rfl⟩ := Run.pure_eq_ok.mp ho
        exact .inr ⟨t₁, a, d, t₃, hp, by simp, .inr ⟨b, d', hq', rfl⟩⟩
      · obtain ⟨rfl, rfl⟩ := Run.pure_eq_ok.mp ho
        exact .inr ⟨t₁, a, d, t₃, hp, by simp, .inl ⟨e, d', hq', rfl⟩⟩
    · obtain ⟨rfl, rfl⟩ := Run.pure_eq_ok.mp hq
      exact .inl ⟨e, d, by rw [hp, List.append_nil], rfl⟩
  · intro hr
    rcases hr with ⟨e, d, hp, rfl⟩ | ⟨t₁, a, d, t₂, hp, rfl, ⟨e, d', hq, rfl⟩ | ⟨b, d', hq, rfl⟩⟩
    · exact Run.bind_of_pure hp rfl
    · exact Run.bind_eq_ok.mpr ⟨t₁, _, t₂, hp, Run.bind_of_pure hq rfl, rfl⟩
    · exact Run.bind_eq_ok.mpr ⟨t₁, _, t₂, hp, Run.bind_of_pure hq rfl, rfl⟩

theorem pair_halts {q : Parser σ β} :
    (pair p q c).result = .error h ↔ (p c).result = .error h ∨
      ∃ t a d, p c = ⟨t, .ok (.success a d)⟩ ∧ (q d).result = .error h := by
  simp only [pair, Run.bind_halts]
  constructor
  · intro hr
    rcases hr with hp | ⟨t, ⟨a, d⟩ | ⟨e, d⟩, hp, hq⟩
    · exact .inl hp
    · rcases Run.bind_halts.mp hq with hq | ⟨u, ⟨b, d'⟩ | ⟨e, d'⟩, -, ho⟩
      · exact .inr ⟨t, a, d, hp, hq⟩
      · exact absurd ho Run.pure_halts
      · exact absurd ho Run.pure_halts
    · exact absurd hq Run.pure_halts
  · intro hr
    rcases hr with hp | ⟨t, a, d, hp, hq⟩
    · exact .inl hp
    · exact .inr ⟨t, _, hp, Run.bind_halts.mpr (.inl hq)⟩

theorem andThen_eq_ok {q : Parser σ β} {o : Outcome σ (α × β)} :
    andThen p q c = ⟨t, .ok o⟩ ↔
      (∃ e d, p c = ⟨t, .ok (.failure e d)⟩ ∧ o = .failure e d) ∨
      ∃ t₁ a d t₂ o', p c = ⟨t₁, .ok (.success a d)⟩ ∧ q d = ⟨t₂, .ok o'⟩ ∧ t = t₁ ++ t₂ ∧
        o = o'.map (a, ·) := by
  constructor
  · intro hr
    obtain ⟨t₁, ⟨a, d⟩ | ⟨e, d⟩, t₂, hp, hq, rfl⟩ := Run.bind_eq_ok.mp hr
    · obtain ⟨o', hq', rfl⟩ := Run.bind_pure_eq_ok.mp hq
      exact .inr ⟨t₁, a, d, t₂, o', hp, hq', rfl, rfl⟩
    · obtain ⟨rfl, rfl⟩ := Run.pure_eq_ok.mp hq
      exact .inl ⟨e, d, by rw [hp, List.append_nil], rfl⟩
  · intro hr
    rcases hr with ⟨e, d, hp, rfl⟩ | ⟨t₁, a, d, t₂, o', hp, hq, rfl, rfl⟩
    · exact Run.bind_of_pure hp rfl
    · exact Run.bind_eq_ok.mpr ⟨t₁, _, t₂, hp, Run.bind_of_pure hq rfl, rfl⟩

theorem andThen_halts {q : Parser σ β} :
    (andThen p q c).result = .error h ↔ (p c).result = .error h ∨
      ∃ t a d, p c = ⟨t, .ok (.success a d)⟩ ∧ (q d).result = .error h := by
  simp only [andThen, Run.bind_halts]
  constructor
  · intro hr
    rcases hr with hp | ⟨t, ⟨a, d⟩ | ⟨e, d⟩, hp, hq⟩
    · exact .inl hp
    · exact .inr ⟨t, a, d, hp, Run.bind_pure_halts.mp hq⟩
    · exact absurd hq Run.pure_halts
  · intro hr
    rcases hr with hp | ⟨t, a, d, hp, hq⟩
    · exact .inl hp
    · exact .inr ⟨t, _, hp, Run.bind_pure_halts.mpr hq⟩

/-! ### One, with a change of the outcome -/

theorem map_eq_ok {f : α → β} {o : Outcome σ β} :
    map f p c = ⟨t, .ok o⟩ ↔ ∃ o', p c = ⟨t, .ok o'⟩ ∧ o = o'.map f := Run.bind_pure_eq_ok

theorem map_halts {f : α → β} : (map f p c).result = .error h ↔ (p c).result = .error h :=
  Run.bind_pure_halts

theorem map_pair_eq_ok {f : α × β → γ} {q : Parser σ β} {o : Outcome σ γ} :
    map f (pair p q) c = ⟨t, .ok o⟩ ↔
      (∃ e d, p c = ⟨t, .ok (.failure e d)⟩ ∧ o = .failure e c) ∨
      ∃ t₁ a d t₂, p c = ⟨t₁, .ok (.success a d)⟩ ∧ t = t₁ ++ t₂ ∧
        ((∃ e d', q d = ⟨t₂, .ok (.failure e d')⟩ ∧ o = .failure e c) ∨
          ∃ b d', q d = ⟨t₂, .ok (.success b d')⟩ ∧ o = .success (f (a, b)) d') := by
  rw [map_eq_ok]
  constructor
  · rintro ⟨o', hpair, rfl⟩
    rcases pair_eq_ok.mp hpair with ⟨e, d, hp, rfl⟩ |
      ⟨t₁, a, d, t₂, hp, ht, ⟨e, d', hq, rfl⟩ | ⟨b, d', hq, rfl⟩⟩
    · exact .inl ⟨e, d, hp, rfl⟩
    · exact .inr ⟨t₁, a, d, t₂, hp, ht, .inl ⟨e, d', hq, rfl⟩⟩
    · exact .inr ⟨t₁, a, d, t₂, hp, ht, .inr ⟨b, d', hq, rfl⟩⟩
  · rintro (⟨e, d, hp, rfl⟩ | ⟨t₁, a, d, t₂, hp, ht, ⟨e, d', hq, rfl⟩ | ⟨b, d', hq, rfl⟩⟩)
    · exact ⟨.failure e c, pair_eq_ok.mpr (.inl ⟨e, d, hp, rfl⟩), rfl⟩
    · exact ⟨.failure e c, pair_eq_ok.mpr (.inr ⟨t₁, a, d, t₂, hp, ht, .inl ⟨e, d', hq, rfl⟩⟩), rfl⟩
    · exact ⟨.success (a, b) d', pair_eq_ok.mpr (.inr ⟨t₁, a, d, t₂, hp, ht, .inr ⟨b, d', hq, rfl⟩⟩),
        rfl⟩

theorem between_eq_ok {left : Parser σ α} {middle : Parser σ β} {right : Parser σ γ} {o : Outcome σ β} :
    between left middle right c = ⟨t, .ok o⟩ ↔
      (∃ e d, left c = ⟨t, .ok (.failure e d)⟩ ∧ o = .failure e d) ∨
      ∃ t₁ a d t₂, left c = ⟨t₁, .ok (.success a d)⟩ ∧
        terminated middle right d = ⟨t₂, .ok o⟩ ∧ t = t₁ ++ t₂ := by
  rw [between, map_eq_ok]
  constructor
  · rintro ⟨o', hboth, rfl⟩
    rcases andThen_eq_ok.mp hboth with ⟨e, d, hl, rfl⟩ | ⟨t₁, a, d, t₂, o'', hl, hm, ht, rfl⟩
    · exact .inl ⟨e, d, hl, rfl⟩
    · refine .inr ⟨t₁, a, d, t₂, hl, ?_, ht⟩
      cases o'' <;> exact hm
  · rintro (⟨e, d, hl, rfl⟩ | ⟨t₁, a, d, t₂, hl, hm, ht⟩)
    · exact ⟨.failure e d, andThen_eq_ok.mpr (.inl ⟨e, d, hl, rfl⟩), rfl⟩
    · refine ⟨o.map (a, ·), andThen_eq_ok.mpr (.inr ⟨t₁, a, d, t₂, o, hl, hm, ht, rfl⟩), ?_⟩
      cases o <;> rfl

theorem optional_eq_ok {o : Outcome σ (Option α)} :
    optional p c = ⟨t, .ok o⟩ ↔
      (∃ v d, p c = ⟨t, .ok (.success v d)⟩ ∧ o = .success (some v) d) ∨
      ∃ e d, p c = ⟨t, .ok (.failure e d)⟩ ∧ o = .success none c := by
  constructor
  · intro hr
    obtain ⟨t₁, ⟨v, d⟩ | ⟨e, d⟩, t₂, hp, ho, rfl⟩ := Run.bind_eq_ok.mp hr
    · obtain ⟨rfl, rfl⟩ := Run.pure_eq_ok.mp ho
      exact .inl ⟨v, d, by rw [hp, List.append_nil], rfl⟩
    · obtain ⟨rfl, rfl⟩ := Run.pure_eq_ok.mp ho
      exact .inr ⟨e, d, by rw [hp, List.append_nil], rfl⟩
  · intro hr
    rcases hr with ⟨v, d, hp, rfl⟩ | ⟨e, d, hp, rfl⟩
    · exact Run.bind_of_pure hp rfl
    · exact Run.bind_of_pure hp rfl

theorem optional_halts : (optional p c).result = .error h ↔ (p c).result = .error h := by
  simp only [optional, Run.bind_halts]
  constructor
  · intro hr
    rcases hr with hp | ⟨t, ⟨v, d⟩ | ⟨e, d⟩, -, ho⟩
    · exact hp
    · exact absurd ho Run.pure_halts
    · exact absurd ho Run.pure_halts
  · exact .inl

/-! ### Nesting -/

theorem nested_of_limit (hl : c.options.nestLimit = some c.nestLevel) :
    nested p c = ⟨[.nestLimit c.nestLevel c.position], .ok (c.fail .nestLimit)⟩ := by
  simp only [nested, Context.nest, if_pos hl]
  rfl

theorem nested_of_below (hl : c.options.nestLimit ≠ some c.nestLevel) :
    nested p c = do return (← p (c.withLevel (c.nestLevel + 1))).withLevel c.nestLevel := by
  simp only [nested, Context.nest, if_neg hl, pure_bind]

theorem nested_eq_ok {o : Outcome σ α} :
    nested p c = ⟨t, .ok o⟩ ↔
      (c.options.nestLimit = some c.nestLevel ∧ t = [.nestLimit c.nestLevel c.position] ∧
        o = c.fail .nestLimit) ∨
      (c.options.nestLimit ≠ some c.nestLevel ∧
        ∃ o', p (c.withLevel (c.nestLevel + 1)) = ⟨t, .ok o'⟩ ∧ o = o'.withLevel c.nestLevel) := by
  by_cases hl : c.options.nestLimit = some c.nestLevel
  · rw [nested_of_limit hl]
    constructor
    · intro ho
      cases ho
      exact .inl ⟨hl, rfl, rfl⟩
    · intro hr
      rcases hr with ⟨-, rfl, rfl⟩ | ⟨hn, -⟩
      · rfl
      · exact absurd hl hn
  · rw [nested_of_below hl, Run.bind_pure_eq_ok]
    constructor
    · intro ho
      exact .inr ⟨hl, ho⟩
    · intro hr
      rcases hr with ⟨hy, -⟩ | ⟨-, ho⟩
      · exact absurd hy hl
      · exact ho

theorem nested_halts :
    (nested p c).result = .error h ↔ c.options.nestLimit ≠ some c.nestLevel ∧
      (p (c.withLevel (c.nestLevel + 1))).result = .error h := by
  by_cases hl : c.options.nestLimit = some c.nestLevel
  · simp [nested_of_limit hl, hl]
  · rw [nested_of_below hl, Run.bind_pure_halts]
    constructor
    · intro hp
      exact ⟨hl, hp⟩
    · intro hp
      exact hp.2

/-! ### Repetition -/

section Repeated

variable {v : α} {d : Context σ}

theorem repeated_of_failure {err : ParseError} (hp : p c = ⟨t, .ok (.failure err d)⟩) (n : Nat) :
    repeated p n c = ⟨t, .ok ([], c)⟩ := by
  rw [repeated, hp, Run.ok_bind, Run.pure_eq, List.append_nil]

theorem repeated_of_success (hp : p c = ⟨t, .ok (.success v d)⟩) (n : Nat) :
    repeated p n c = ⟨t, .ok ()⟩ >>= fun _ =>
      if d.Placed ∧ c.Placed then
        if byteSize d.remaining = byteSize c.remaining then return ([], c)
        else match n with
          | 0 => .halt .unfinished
          | n + 1 => do
            let (vs, e) ← repeated p n d
            return (v :: vs, e)
      else .halt .misplaced := by
  rw [← Context.reading_both]
  cases n <;> rw [repeated, hp] <;> rfl

theorem repeated_of_stays (hp : p c = ⟨t, .ok (.success v d)⟩) (hs : c.Stays d) (n : Nat) :
    repeated p n c = ⟨t, .ok ([], c)⟩ := by
  obtain ⟨hc, hd, hb⟩ := hs
  rw [repeated_of_success hp, if_pos ⟨hd, hc⟩, if_pos hb, Run.ok_bind, Run.pure_eq, List.append_nil]

theorem repeated_of_moves_zero (hp : p c = ⟨t, .ok (.success v d)⟩) (hm : c.Moves d) :
    repeated p 0 c = ⟨t, .error .unfinished⟩ := by
  obtain ⟨hc, hd, hb⟩ := hm
  rw [repeated_of_success hp, if_pos ⟨hd, hc⟩, if_neg hb, Run.ok_bind]
  simp only [Run.halt, List.append_nil]

theorem repeated_of_moves (hp : p c = ⟨t, .ok (.success v d)⟩) (hm : c.Moves d) (n : Nat) :
    repeated p (n + 1) c = ⟨t ++ (repeated p n d).trace,
      (repeated p n d).result.map fun r => (v :: r.1, r.2)⟩ := by
  obtain ⟨hc, hd, hb⟩ := hm
  rw [repeated_of_success hp, if_pos ⟨hd, hc⟩, if_neg hb, Run.ok_bind]
  rcases hr : repeated p n d with ⟨u, h | r⟩
  · simp only [hr, Run.error_bind, Except.map]
  · simp only [hr, Run.ok_bind, Run.pure_eq, List.append_nil, Except.map]

theorem repeated_of_misplaced (hp : p c = ⟨t, .ok (.success v d)⟩) (hm : ¬ (d.Placed ∧ c.Placed))
    (n : Nat) : repeated p n c = ⟨t, .error .misplaced⟩ := by
  rw [repeated_of_success hp, if_neg hm, Run.ok_bind]
  simp only [Run.halt, List.append_nil]

end Repeated

theorem repeated_eq_ok {n : Nat} {vs : List α} {e : Context σ} :
    repeated p n c = ⟨t, .ok (vs, e)⟩ ↔
      (∃ err d, p c = ⟨t, .ok (.failure err d)⟩ ∧ vs = [] ∧ e = c) ∨
      (∃ v d, p c = ⟨t, .ok (.success v d)⟩ ∧ c.Stays d ∧ vs = [] ∧ e = c) ∨
      (∃ v d m ws t₁ t₂, p c = ⟨t₁, .ok (.success v d)⟩ ∧ c.Moves d ∧ n = m + 1 ∧
        repeated p m d = ⟨t₂, .ok (ws, e)⟩ ∧ vs = v :: ws ∧ t = t₁ ++ t₂) := by
  constructor
  · intro hr
    rcases hp : p c with ⟨t₀, h | ⟨v, d⟩ | ⟨err, d⟩⟩
    · rw [repeated, hp] at hr
      cases hr
    · rcases c.stays_or_moves d with hs | hm | hm
      · rw [repeated_of_stays hp hs] at hr
        cases hr
        exact .inr (.inl ⟨v, d, rfl, hs, rfl, rfl⟩)
      · cases n with
        | zero =>
          rw [repeated_of_moves_zero hp hm] at hr
          cases hr
        | succ m =>
          rw [repeated_of_moves hp hm] at hr
          rcases hrec : repeated p m d with ⟨t₂, h | ⟨ws, e'⟩⟩
          · rw [hrec] at hr
            cases hr
          · rw [hrec] at hr
            cases hr
            exact .inr (.inr ⟨v, d, m, ws, t₀, t₂, rfl, hm, rfl, hrec, rfl, rfl⟩)
      · rw [repeated_of_misplaced hp hm] at hr
        cases hr
    · rw [repeated_of_failure hp] at hr
      cases hr
      exact .inl ⟨err, d, rfl, rfl, rfl⟩
  · intro hr
    rcases hr with ⟨err, d, hp, rfl, rfl⟩ | ⟨v, d, hp, hs, rfl, rfl⟩ |
      ⟨v, d, m, ws, t₁, t₂, hp, hm, rfl, hrec, rfl, rfl⟩
    · exact repeated_of_failure hp n
    · exact repeated_of_stays hp hs n
    · rw [repeated_of_moves hp hm, hrec]
      rfl

theorem repeated_halts {n : Nat} (hr : (repeated p n c).result = .error h) :
    (p c).result = .error h ∨
      ∃ t v d, p c = ⟨t, .ok (.success v d)⟩ ∧
        ((¬ (d.Placed ∧ c.Placed) ∧ h = .misplaced) ∨
          (c.Moves d ∧ n = 0 ∧ h = .unfinished) ∨
          ∃ m, c.Moves d ∧ n = m + 1 ∧ (repeated p m d).result = .error h) := by
  rcases hp : p c with ⟨t₀, h₀ | ⟨v, d⟩ | ⟨err, d⟩⟩
  · rw [repeated, hp, Run.error_bind] at hr
    cases hr
    exact .inl rfl
  · refine .inr ⟨t₀, v, d, rfl, ?_⟩
    rcases c.stays_or_moves d with hs | hm | hm
    · rw [repeated_of_stays hp hs] at hr
      cases hr
    · cases n with
      | zero =>
        rw [repeated_of_moves_zero hp hm] at hr
        cases hr
        exact .inr (.inl ⟨hm, rfl, rfl⟩)
      | succ m =>
        rw [repeated_of_moves hp hm] at hr
        refine .inr (.inr ⟨m, hm, rfl, ?_⟩)
        rcases hrec : repeated p m d with ⟨t₂, h₂ | r⟩
        · rw [hrec] at hr
          exact hr
        · rw [hrec] at hr
          cases hr
    · rw [repeated_of_misplaced hp hm] at hr
      cases hr
      exact .inl ⟨hm, rfl⟩
  · rw [repeated_of_failure hp] at hr
    cases hr

theorem many_eq_ok {o : Outcome σ (List α)} :
    many p c = ⟨t, .ok o⟩ ↔
      ∃ vs d, repeated p (byteSize c.remaining) c = ⟨t, .ok (vs, d)⟩ ∧ o = .success vs d := by
  constructor
  · intro ho
    obtain ⟨⟨vs, d⟩, hr, rfl⟩ := Run.bind_pure_eq_ok.mp ho
    exact ⟨vs, d, hr, rfl⟩
  · intro hr
    obtain ⟨vs, d, hr, rfl⟩ := hr
    exact Run.bind_of_pure hr rfl

theorem many_halts :
    (many p c).result = .error h ↔ (repeated p (byteSize c.remaining) c).result = .error h :=
  Run.bind_pure_halts

theorem many_of_failure {e : ParseError} {d : Context σ} (hp : p c = ⟨t, .ok (.failure e d)⟩) :
    many p c = ⟨t, .ok (.success [] c)⟩ :=
  many_eq_ok.mpr ⟨[], c, repeated_of_failure hp _, rfl⟩

theorem many1_eq_ok {o : Outcome σ (List α)} :
    many1 p c = ⟨t, .ok o⟩ ↔
      (∃ e d, p c = ⟨t, .ok (.failure e d)⟩ ∧ o = .failure e d) ∨
      ∃ t₁ v d t₂ vs e, p c = ⟨t₁, .ok (.success v d)⟩ ∧
        repeated p (byteSize d.remaining) d = ⟨t₂, .ok (vs, e)⟩ ∧ t = t₁ ++ t₂ ∧
        o = .success (v :: vs) e := by
  constructor
  · intro ho
    obtain ⟨t₁, ⟨v, d⟩ | ⟨e, d⟩, t₂, hp, hr, rfl⟩ := Run.bind_eq_ok.mp ho
    · obtain ⟨⟨vs, e⟩, hr', rfl⟩ := Run.bind_pure_eq_ok.mp hr
      exact .inr ⟨t₁, v, d, t₂, vs, e, hp, hr', rfl, rfl⟩
    · obtain ⟨rfl, rfl⟩ := Run.pure_eq_ok.mp hr
      exact .inl ⟨e, d, by rw [hp, List.append_nil], rfl⟩
  · intro hr
    rcases hr with ⟨e, d, hp, rfl⟩ | ⟨t₁, v, d, t₂, vs, e, hp, hr, rfl, rfl⟩
    · exact Run.bind_of_pure hp rfl
    · exact Run.bind_eq_ok.mpr ⟨t₁, _, t₂, hp, Run.bind_of_pure hr rfl, rfl⟩

theorem many1_of_failure {e : ParseError} {d : Context σ} (hp : p c = ⟨t, .ok (.failure e d)⟩) :
    many1 p c = ⟨t, .ok (.failure e d)⟩ :=
  many1_eq_ok.mpr (.inl ⟨e, d, hp, rfl⟩)

theorem many1_of_success {u : List Event} {v : α} {vs : List α} {d e : Context σ}
    (hp : p c = ⟨t, .ok (.success v d)⟩) (hrest : many p d = ⟨u, .ok (.success vs e)⟩) :
    many1 p c = ⟨t ++ u, .ok (.success (v :: vs) e)⟩ := by
  obtain ⟨vs, e, hrep, ⟨⟩⟩ := many_eq_ok.mp hrest
  exact many1_eq_ok.mpr (.inr ⟨t, v, d, u, vs, e, hp, hrep, rfl, rfl⟩)

theorem many1_halts :
    (many1 p c).result = .error h ↔ (p c).result = .error h ∨
      ∃ t v d, p c = ⟨t, .ok (.success v d)⟩ ∧
        (repeated p (byteSize d.remaining) d).result = .error h := by
  simp only [many1, Run.bind_halts]
  constructor
  · intro hr
    rcases hr with hp | ⟨t, ⟨v, d⟩ | ⟨e, d⟩, hp, hr⟩
    · exact .inl hp
    · exact .inr ⟨t, v, d, hp, Run.bind_pure_halts.mp hr⟩
    · exact absurd hr Run.pure_halts
  · intro hr
    rcases hr with hp | ⟨t, v, d, hp, hr⟩
    · exact .inl hp
    · exact .inr ⟨t, _, hp, Run.bind_pure_halts.mpr hr⟩

end Parser

end StreamParser
