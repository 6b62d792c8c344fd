import StreamParser.Proofs.Likeness
import StreamParser.Proofs.Operations

/-!
# When nesting is refused

Nesting is refused at the limit, not above it: a context whose level lies above its limit nests on. No
operation takes a level past the limit that is in force, but a limit can be set below a level. As long
as the options given to a context allow its level, a context nests if and only if its level lies below
the limit, and no nested part of a grammar is ever run on a level above the limit: a check for that
would change no run.
-/

namespace StreamParser

variable {σ α : Type}

namespace Context

variable {c d : Context σ}

def WithinLimit (c : Context σ) : Prop := ∀ n, c.options.nestLimit = some n → c.nestLevel ≤ n

instance (c : Context σ) : Decidable c.WithinLimit :=
  decidable_of_iff (c.options.nestLimit.all (c.nestLevel ≤ ·) = true) (by
    unfold WithinLimit
    cases c.options.nestLimit <;> simp)

def NestsBelowLimit (c : Context σ) : Prop :=
  (∃ t d, c.nest = ⟨t, .ok (.ok d)⟩) ↔ ∀ n, c.options.nestLimit = some n → c.nestLevel < n

theorem exists_nest_iff :
    (∃ t d, c.nest = ⟨t, .ok (.ok d)⟩) ↔ c.options.nestLimit ≠ some c.nestLevel := by
  constructor
  · rintro ⟨t, d, h⟩
    exact (nest_eq_ok h).1
  · intro hl
    exact ⟨_, _, if_neg hl⟩

theorem nestsBelowLimit_iff : c.NestsBelowLimit ↔ c.WithinLimit := by
  rw [NestsBelowLimit, exists_nest_iff, WithinLimit]
  cases c.options.nestLimit with
  | none => simp
  | some n =>
    simp only [ne_eq, Option.some.injEq, forall_eq']
    omega

theorem WithinLimit.of_reaches (h : c.WithinLimit) (hd : c.Reaches d) : d.WithinLimit := by
  unfold WithinLimit
  rwa [hd.options_eq, hd.nestLevel_eq]

theorem WithinLimit.deeper (h : c.WithinLimit) (hl : c.options.nestLimit ≠ some c.nestLevel) :
    (c.withLevel (c.nestLevel + 1)).WithinLimit := by
  intro n hn
  have hle := h n hn
  have hne : c.nestLevel ≠ n := by
    rintro rfl
    exact hl hn
  show c.nestLevel + 1 ≤ n
  omega

end Context

/-- The options that are given to a context allow its level. -/
def Usage.withinLimit (σ : Type) : Usage σ := ⟨fun _ _ => True, fun c o => (c.withOptions o).WithinLimit⟩

theorem kept_withinLimit (σ : Type) : Kept (Usage.withinLimit σ) Context.WithinLimit where
  start _ _ _ hn := by cases hn
  withStream hc _ := hc
  withOptions _ _ ho := ho
  reaches hc hd := hc.of_reaches hd
  deeper hc hl := hc.deeper hl
  movedTo hc _ _ := hc

/-! ### A check before each nested part -/

def Parser.checked (instead p : Parser σ α) : Parser σ α := fun c =>
  if c.WithinLimit then p c else instead c

namespace Grammar

variable {ρ : Type} {τ : ρ → Type}

/-- The grammar with a check before each nested part, and a parser to run instead where it fails. -/
def checked (instead : (α : Type) → Parser σ α) : {α : Type} → Grammar Empty τ σ α →
    Grammar Unit τ σ α
  | _, char c => char c
  | _, notChar c => notChar c
  | _, satisfy label p => satisfy label p
  | _, endOfStream => endOfStream
  | _, noChoice => noChoice
  | _, or a b => or (a.checked instead) (b.checked instead)
  | _, pair a b => pair (a.checked instead) (b.checked instead)
  | _, andThen a b => andThen (a.checked instead) (b.checked instead)
  | _, map f a => map f (a.checked instead)
  | _, just v => just v
  | _, many a => many (a.checked instead)
  | _, many1 a => many1 (a.checked instead)
  | _, optional a => optional (a.checked instead)
  | α, nested a => nested (foreign () (Parser.checked (instead α)) (a.checked instead))
  | _, ref r => ref r
  | _, state => state
  | _, update f => update f
  | _, skipSpaces => skipSpaces
  | _, charsUntil d => charsUntil d
  | _, pattern p => pattern p

end Grammar

namespace Likeness

def checked (limit : Option Nat) : Likeness σ where
  contexts c d := (c.options.nestLimit = limit ∧ c.WithinLimit) ∧ d = c
  errors := Eq
  events := Eq
  stray _ := False

variable {limit : Option Nat}

theorem checked_lawful : (checked limit : Likeness σ).Lawful where
  remaining?_eq h := by rw [h.2]
  isEmpty_eq h := by rw [h.2]
  state_eq h := by rw [h.2]
  withState h s := ⟨h.1, by rw [h.2]⟩
  consume h _ := ⟨h.1, by rw [h.2]⟩
  mismatch h x y := by rw [h.2]; rfl
  fallback h := by rw [h.2]; rfl
  error h cause _ := by rw [h.2]; rfl
  errorAtEnd h w := by rw [h.2]; rfl
  errorAtMismatch h x y := by rw [h.2]; rfl

/-- A nested part is run on the next level, which is within the limit if it is not refused, and the
level it returns to is the one before it. -/
theorem checked_nested {p q : Parser σ α} (instead : Parser σ α) (hp : (checked limit).Parsers p q) :
    (checked limit).Parsers (Parser.nested p) (Parser.nested (Parser.checked instead q)) := by
  intro c d h
  obtain ⟨⟨hlimit, hc⟩, rfl⟩ := h
  by_cases hl : d.options.nestLimit = some d.nestLevel
  · rw [Parser.nested_of_limit hl, Parser.nested_of_limit hl]
    exact .inr ⟨.cons rfl .nil, .ok (.failure rfl ⟨⟨hlimit, hc⟩, rfl⟩)⟩
  · have hdeeper := hc.deeper hl
    rw [Parser.nested_of_below hl, Parser.nested_of_below hl, Parser.checked, if_pos hdeeper]
    refine .bind (hp _ _ ⟨⟨hlimit, hdeeper⟩, rfl⟩) fun o o' ho => ?_
    have hback {e : Context σ} (he : e.options.nestLimit = limit) :
        (e.withLevel d.nestLevel).WithinLimit := by
      intro n hn
      exact hc n (hlimit.trans (he.symm.trans hn))
    cases ho with
    | success h₁ => exact .pure (.success ⟨⟨h₁.1.1, hback h₁.1.1⟩, by rw [h₁.2]⟩)
    | failure he h₁ => exact .pure (.failure he ⟨⟨h₁.1.1, hback h₁.1.1⟩, by rw [h₁.2]⟩)

theorem eq_of_checked {x y : Run (Outcome σ α)}
    (h : (checked limit : Likeness σ).Runs (checked limit : Likeness σ).Outcomes x y) : y = x := by
  obtain ⟨t, xr⟩ := x
  obtain ⟨u, yr⟩ := y
  rcases h with ⟨e, -, hstray⟩ | ⟨htrace, hanswer⟩
  · exact hstray.elim
  · have htu : t = u := List.forall₂_eq_eq_eq ▸ htrace
    subst htu
    cases hanswer with
    | error => rfl
    | ok ho =>
      cases ho with
      | success h₁ => rw [h₁.2]
      | failure he h₁ =>
        cases he
        rw [h₁.2]

end Likeness

namespace Grammar

variable {ρ : Type} {τ : ρ → Type} {limit : Option Nat} {instead : (α : Type) → Parser σ α}

theorem checked_meaning {env env' : (r : ρ) → Parser σ (τ r)}
    (henv : ∀ r, (Likeness.checked limit).Parsers (env r) (env' r)) (g : Grammar Empty τ σ α) :
    (Likeness.checked limit).Parsers (g.meaning env) ((g.checked instead).meaning env') := by
  have hL : (Likeness.checked limit : Likeness σ).Lawful := Likeness.checked_lawful
  induction g with
  | char | notChar | satisfy | endOfStream | noChoice | just | state | update | skipSpaces
  | charsUntil | pattern => exact like_leaf hL rfl env env'
  | or a b iha ihb => exact hL.or iha ihb
  | pair a b iha ihb => exact .pair iha ihb
  | andThen a b iha ihb => exact .andThen iha ihb
  | map f a iha => exact .map f iha
  | many a iha => exact hL.many iha
  | many1 a iha => exact hL.many1 iha
  | optional a iha => exact .optional iha
  | nested a iha => exact Likeness.checked_nested _ iha
  | ref r => exact henv r
  | foreign licence => exact licence.elim

theorem run_checked (rules : (r : ρ) → Grammar Empty τ σ (τ r)) (depth : Nat) (g : Grammar Empty τ σ α)
    {c : Context σ} (hc : c.WithinLimit) :
    run (fun r => (rules r).checked instead) depth (g.checked instead) c = run rules depth g c := by
  have hrules (depth : Nat) (r : ρ) : (Likeness.checked c.options.nestLimit).Parsers
      (unfold rules depth r) (unfold (fun r => (rules r).checked instead) depth r) := by
    induction depth generalizing r with
    | zero => exact fun c d h => .halt .unfinished
    | succ depth ih => exact checked_meaning ih (rules r)
  exact Likeness.eq_of_checked (checked_meaning (hrules depth) g c c ⟨⟨rfl, hc⟩, rfl⟩)

end Grammar

/-- If options are given only to contexts whose level they allow, every context in hand nests exactly
below its limit, and no run of a grammar on it gets to a nested part above the limit. No other options
could be given to it: under them it would nest where it must not. -/
theorem nest_iff_below_limit {held : List (Context σ)} (h : InHand (Usage.withinLimit σ) held)
    {c : Context σ} (hc : c ∈ held) :
    c.NestsBelowLimit ∧
    (∀ {ρ : Type} {τ : ρ → Type} {α : Type} (instead : (β : Type) → Parser σ β)
      (rules : (r : ρ) → Grammar Empty τ σ (τ r)) (depth : Nat) (g : Grammar Empty τ σ α),
      Grammar.run (fun r => (rules r).checked instead) depth (g.checked instead) c =
        Grammar.run rules depth g c) ∧
    ∀ o, (c.withOptions o).NestsBelowLimit ↔ (Usage.withinLimit σ).equips c o := by
  have hwithin := (kept_withinLimit σ).of_inHand h c hc
  exact ⟨Context.nestsBelowLimit_iff.mpr hwithin,
    fun instead rules depth g => Grammar.run_checked rules depth g hwithin,
    fun o => Context.nestsBelowLimit_iff⟩

/-- At the limit the context does not nest, and under a larger one it does. -/
theorem nest_iff_below_limit_at_one :
    let c := Context.start ['x'] ()
    let atLimit := (c.withOptions ⟨some 1, true⟩).withLevel 1
    InHand (Usage.withinLimit Unit)
      [atLimit.withOptions ⟨some 2, true⟩, atLimit, c.withOptions ⟨some 1, true⟩, c] ∧
    atLimit.NestsBelowLimit ∧ (atLimit.withOptions ⟨some 2, true⟩).NestsBelowLimit := by
  intro c atLimit
  have hstart : InHand (Usage.withinLimit Unit) [c] := .more .none (.start _ _)
  have hlimited : InHand (Usage.withinLimit Unit) [c.withOptions ⟨some 1, true⟩, c] :=
    .more hstart (.withOptions List.mem_cons_self (by decide : (c.withOptions ⟨some 1, true⟩).WithinLimit))
  have hnested : InHand (Usage.withinLimit Unit) [atLimit, c.withOptions ⟨some 1, true⟩, c] :=
    .more hlimited (.nest List.mem_cons_self rfl)
  have hraised := InHand.more hnested (.withOptions List.mem_cons_self
    (by decide : (atLimit.withOptions ⟨some 2, true⟩).WithinLimit))
  exact ⟨hraised, (nest_iff_below_limit hraised (List.mem_cons_of_mem _ List.mem_cons_self)).1,
    (nest_iff_below_limit hraised List.mem_cons_self).1⟩

/-- Two levels deep the limit is set to one, and the context still nests. -/
theorem nests_above_limit_set_below_level :
    let c := Context.start ['x'] ()
    let deep := ((c.withLevel 1).withLevel 2).withOptions ⟨some 1, true⟩
    InHand (Usage.careless Unit) [deep, (c.withLevel 1).withLevel 2, c.withLevel 1, c] ∧
    ¬ deep.NestsBelowLimit ∧ deep.nest = ⟨[], .ok (.ok (deep.withLevel 3))⟩ := by
  intro c deep
  have hstart : InHand (Usage.careless Unit) [c] := .more .none (.start _ _)
  have honce : InHand (Usage.careless Unit) [c.withLevel 1, c] :=
    .more hstart (.nest List.mem_cons_self rfl)
  have htwice : InHand (Usage.careless Unit) [(c.withLevel 1).withLevel 2, c.withLevel 1, c] :=
    .more honce (.nest List.mem_cons_self rfl)
  refine ⟨.more htwice (.withOptions List.mem_cons_self trivial), ?_, rfl⟩
  rw [Context.nestsBelowLimit_iff]
  decide

end StreamParser
