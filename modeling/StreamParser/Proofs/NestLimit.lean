import StreamParser.Proofs.Coherence
import StreamParser.Proofs.Likeness

/-!
# What a nest limit changes

A nest limit acts by refusing to nest, and each refusal is logged. A run that logs none is the same
run under every larger limit and under no limit, and it is the run of the grammar from which all
nesting is erased, under any limit at all. The last part says that a level never shows outside of the
nested part that raised it.
-/

namespace StreamParser

variable {σ α : Type}

def Event.isNestLimit : Event → Bool
  | .nestLimit _ _ => true
  | _ => false

def Context.withNestLimit (c : Context σ) (limit : Option Nat) : Context σ :=
  c.withOptions { c.options with nestLimit := limit }

def Outcome.withNestLimit (limit : Option Nat) : Outcome σ α → Outcome σ α
  | .success v c => .success v (c.withNestLimit limit)
  | .failure e c => .failure e (c.withNestLimit limit)

namespace Likeness

/-- Contexts where `P` holds of options and level, beside the same with another limit and with the
level that `level` makes of theirs. A refusal in the first run ends the comparison. -/
def recast (P : Options → Nat → Prop) (limit : Option Nat) (level : Nat → Nat) : Likeness σ where
  contexts c d :=
    P c.options c.nestLevel ∧ d = (c.withNestLimit limit).withLevel (level c.nestLevel)
  errors := Eq
  events := Eq
  stray e := e.isNestLimit = true

def Below (old : Option Nat) (o : Options) (level : Nat) : Prop :=
  o.nestLimit = old ∧ ∀ n, old = some n → level ≤ n

abbrev relimited (old limit : Option Nat) : Likeness σ := recast (Below old) limit id

abbrev levelled (limit : Option Nat) (level : Nat) : Likeness σ :=
  recast (fun _ _ => True) limit fun _ => level

variable {P : Options → Nat → Prop} {limit : Option Nat} {level : Nat → Nat}

theorem recast_lawful : (recast P limit level : Likeness σ).Lawful where
  remaining?_eq h := by rw [h.2]; rfl
  isEmpty_eq h := by rw [h.2]; rfl
  state_eq h := by rw [h.2]; rfl
  withState h s := ⟨h.1, by rw [h.2]; rfl⟩
  consume h _ := ⟨h.1, by rw [h.2]; rfl⟩
  mismatch h x y := by rw [h.2]; rfl
  fallback h := by rw [h.2]; rfl
  error h cause _ := by rw [h.2]; rfl
  errorAtEnd h w := by rw [h.2]; rfl
  errorAtMismatch h x y := by rw [h.2]; rfl

theorem recast_refused {p : Parser σ α} {c : Context σ} {y : Run (Outcome σ α)}
    {R : Outcome σ α → Outcome σ α → Prop} (hl : c.options.nestLimit = some c.nestLevel) :
    (recast P limit level : Likeness σ).Runs R (Parser.nested p c) y := by
  rw [Parser.nested_of_limit hl]
  exact .inl ⟨_, List.mem_singleton.mpr rfl, rfl⟩

theorem relimited_respectsNesting {old : Option Nat}
    (hlarger : ∀ m, limit = some m → ∃ n, old = some n ∧ n ≤ m) :
    (relimited old limit : Likeness σ).RespectsNesting := by
  intro α p q hp c d h
  obtain ⟨⟨hold, hbelow⟩, rfl⟩ := h
  by_cases hl : c.options.nestLimit = some c.nestLevel
  · exact recast_refused hl
  · have hlt (n : Nat) (hn : old = some n) : c.nestLevel < n := by
      have hle := hbelow n hn
      have hne : c.nestLevel ≠ n := by
        intro heq
        apply hl
        rw [hold, hn, heq]
      omega
    have hl' : limit ≠ some c.nestLevel := by
      intro hm
      obtain ⟨n, hn, hle⟩ := hlarger c.nestLevel hm
      have hlt' := hlt n hn
      omega
    rw [Parser.nested_of_below hl, Parser.nested_of_below hl']
    refine .bind (hp _ _ ⟨⟨hold, fun n hn => hlt n hn⟩, rfl⟩) fun o o' ho => ?_
    cases ho with
    | success h₁ => exact .pure (.success ⟨⟨h₁.1.1, hbelow⟩, by rw [h₁.2]; rfl⟩)
    | failure he h₁ => exact .pure (.failure he ⟨⟨h₁.1.1, hbelow⟩, by rw [h₁.2]; rfl⟩)

/-- A nested part beside the part itself: the level it raises is the one thing the second run does
not have, and it is gone when the part is done. -/
theorem levelled_nested {level : Nat} {p q : Parser σ α} (hp : (levelled limit level).Parsers p q) :
    (levelled limit level).Parsers (Parser.nested p) q := by
  intro c d h
  by_cases hl : c.options.nestLimit = some c.nestLevel
  · exact recast_refused hl
  · rw [Parser.nested_of_below hl, ← bind_pure (q d)]
    refine .bind (hp _ d ⟨trivial, h.2⟩) fun o o' ho => ?_
    cases ho with
    | success h₁ => exact .pure (.success ⟨trivial, h₁.2⟩)
    | failure he h₁ => exact .pure (.failure he ⟨trivial, h₁.2⟩)

theorem recast_eq {x y : Run (Outcome σ α)} {R : Outcome σ α → Outcome σ α → Prop}
    {t : List Event} {o : Outcome σ α} (h : (recast P limit level : Likeness σ).Runs R x y)
    (hx : x = ⟨t, .ok o⟩) (hquiet : ∀ e ∈ t, e.isNestLimit = false) :
    ∃ o', y = ⟨t, .ok o'⟩ ∧ R o o' := by
  subst hx
  obtain ⟨u, yr⟩ := y
  rcases h with ⟨e, he, hstray⟩ | ⟨htrace, hanswer⟩
  · cases (hquiet e he).symm.trans hstray
  · have htu : t = u := List.forall₂_eq_eq_eq ▸ htrace
    subst htu
    cases hanswer with
    | ok ho => exact ⟨_, rfl, ho⟩

end Likeness

namespace Grammar

variable {κ ρ : Type} {τ : ρ → Type}

def unnested : {α : Type} → Grammar κ τ σ α → Grammar κ τ σ α
  | _, or a b => or a.unnested b.unnested
  | _, pair a b => pair a.unnested b.unnested
  | _, andThen a b => andThen a.unnested b.unnested
  | _, map f a => map f a.unnested
  | _, many a => many a.unnested
  | _, many1 a => many1 a.unnested
  | _, optional a => optional a.unnested
  | _, nested a => a.unnested
  | _, foreign licence f a => foreign licence f a.unnested
  | _, g => g

variable {rules : (r : ρ) → Grammar Empty τ σ (τ r)} {limit : Option Nat} {level : Nat}

theorem levelled_meaning {env env' : (r : ρ) → Parser σ (τ r)}
    (henv : ∀ r, (Likeness.levelled limit level).Parsers (env r) (env' r))
    (g : Grammar Empty τ σ α) :
    (Likeness.levelled limit level).Parsers (g.meaning env) (g.unnested.meaning env') := by
  have hL : (Likeness.levelled limit level : Likeness σ).Lawful := Likeness.recast_lawful
  induction g with
  | char | notChar | satisfy | endOfStream | noChoice | just | state | update | skipSpaces
  | charsUntil | pattern => exact like_leaf hL rfl env env'
  | or a b iha ihb => exact hL.or iha ihb
  | pair a b iha ihb => exact .pair iha ihb
  | andThen a b iha ihb => exact .andThen iha ihb
  | map f a iha => exact .map f iha
  | many a iha => exact hL.many iha
  | many1 a iha => exact hL.many1 iha
  | optional a iha => exact .optional iha
  | nested a iha => exact Likeness.levelled_nested iha
  | ref r => exact henv r
  | foreign licence => exact licence.elim

theorem levelled_run (rules : (r : ρ) → Grammar Empty τ σ (τ r)) (depth : Nat)
    (g : Grammar Empty τ σ α) :
    (Likeness.levelled limit level).Parsers (run rules depth g)
      (run (fun r => (rules r).unnested) depth g.unnested) := by
  have hrules (depth : Nat) (r : ρ) : (Likeness.levelled limit level).Parsers
      (unfold rules depth r) (unfold (fun r => (rules r).unnested) depth r) := by
    induction depth generalizing r with
    | zero => exact fun c d h => .halt .unfinished
    | succ depth ih => exact levelled_meaning ih (rules r)
  exact levelled_meaning (hrules depth) g

/-- A run that is nowhere refused a level is the same under a larger limit or none, and without the
nesting. -/
theorem run_eq_of_no_refusal {depth : Nat} {g : Grammar Empty τ σ α} {c : Context σ}
    {t : List Event} {o : Outcome σ α}
    (hlevel : ∀ n, c.options.nestLimit = some n → c.nestLevel ≤ n)
    (h : run rules depth g c = ⟨t, .ok o⟩) (hquiet : ∀ e ∈ t, e.isNestLimit = false) :
    (∀ limit, (∀ m, limit = some m → ∃ n, c.options.nestLimit = some n ∧ n ≤ m) →
      run rules depth g (c.withNestLimit limit) = ⟨t, .ok (o.withNestLimit limit)⟩) ∧
    ∀ limit, run (fun r => (rules r).unnested) depth g.unnested (c.withNestLimit limit) =
      ⟨t, .ok (o.withNestLimit limit)⟩ := by
  constructor
  · intro limit hlarger
    have hlike := like_run rules Likeness.recast_lawful
      (Likeness.relimited_respectsNesting hlarger) depth g c (c.withNestLimit limit)
      ⟨⟨rfl, hlevel⟩, rfl⟩
    obtain ⟨o', hrun, ho⟩ := Likeness.recast_eq hlike h hquiet
    rw [hrun]
    cases ho with
    | success h₁ => rw [h₁.2]; rfl
    | failure he h₁ => rw [h₁.2, he]; rfl
  · intro limit
    have hlike := levelled_run rules depth g c
      ((c.withNestLimit limit).withLevel c.nestLevel) ⟨trivial, rfl⟩
    obtain ⟨o', hrun, ho⟩ := Likeness.recast_eq hlike h hquiet
    have hlevel' : o.context.nestLevel = c.nestLevel := (yields_of_run h).reaches.nestLevel_eq
    have hself : (c.withNestLimit limit).withLevel c.nestLevel = c.withNestLimit limit := rfl
    rw [← hself, hrun]
    cases ho with
    | success h₁ => rw [h₁.2, ← hlevel']; rfl
    | failure he h₁ => rw [h₁.2, he, ← hlevel']; rfl

def limitedParens : Unit → Grammar Empty (fun _ : Unit => Nat) σ Nat := fun _ =>
  or (map (· + 1) (preceded (char '(') (terminated (nested (ref ())) (char ')')))) (just 0)

/-- Two pairs take the two levels that there are; a third one would be refused. -/
theorem limitedParens_eq_of_no_refusal :
    ∃ t o, run limitedParens 4 (terminated (ref ()) endOfStream)
        ((Context.start ['(', '(', ')', ')'] ()).withNestLimit (some 2)) = ⟨t, .ok o⟩ ∧
      o.value? = some 2 ∧ (∀ e ∈ t, e.isNestLimit = false) ∧
      run limitedParens 4 (terminated (ref ()) endOfStream)
        ((Context.start ['(', '(', ')', ')'] ()).withNestLimit (some 5)) =
          ⟨t, .ok (o.withNestLimit (some 5))⟩ ∧
      run (fun r => (limitedParens r).unnested) 4 (terminated (ref ()) endOfStream).unnested
        ((Context.start ['(', '(', ')', ')'] ()).withNestLimit (some 0)) =
          ⟨t, .ok (o.withNestLimit (some 0))⟩ := by
  have ran : run limitedParens 4 (terminated (ref ()) endOfStream)
      ((Context.start ['(', '(', ')', ')'] ()).withNestLimit (some 2)) = ⟨_, .ok _⟩ := rfl
  have within (n : Nat) (hn : some 2 = some n) : 0 ≤ n := Nat.zero_le n
  obtain ⟨larger, erased⟩ := run_eq_of_no_refusal within ran (by decide)
  have fiveIsLarger (m : Nat) (hm : some 5 = some m) : ∃ n, some 2 = some n ∧ n ≤ m := by
    cases hm
    exact ⟨2, rfl, by decide⟩
  exact ⟨_, _, ran, rfl, by decide, larger (some 5) fiveIsLarger, erased (some 0)⟩

end Grammar

end StreamParser
