import StreamParser.Proofs.Descent

/-!
# Recursion under a nest limit

A reference is guarded if it stands in a nested part. If no rule leads back to itself through
unguarded references alone, every run under a nest limit comes to an end, whether or not anything is
consumed: between two visits of a rule either the nest level rises, and no higher than the limit, or
the rank of the rule falls. This needs the level of an outcome to be that of the start, which
coherence supplies for successes and failures alike.
-/

namespace StreamParser

namespace Context

variable {σ : Type} {c d : Context σ} {n : Nat}

def UnderLimit (n : Nat) (c : Context σ) : Prop :=
  c.options.nestLimit = some n ∧ c.nestLevel ≤ n

theorem UnderLimit.of_reaches (h : c.UnderLimit n) (hd : c.Reaches d) : d.UnderLimit n := by
  unfold UnderLimit
  rw [hd.options_eq, hd.nestLevel_eq]
  exact h

theorem UnderLimit.deeper (h : c.UnderLimit n) (hl : c.options.nestLimit ≠ some c.nestLevel) :
    (c.withLevel (c.nestLevel + 1)).UnderLimit n := by
  obtain ⟨hn, hle⟩ := h
  have hne : c.nestLevel ≠ n := by
    intro heq
    apply hl
    rw [hn, heq]
  have hlt : c.nestLevel + 1 ≤ n := by omega
  exact ⟨hn, hlt⟩

end Context

namespace Grammar

variable {κ ρ : Type} {τ : ρ → Type} {σ α : Type}

/-- The rules a grammar refers to outside of its nested parts. -/
def Unguarded : {α : Type} → Grammar κ τ σ α → ρ → Prop
  | _, or a b, r => a.Unguarded r ∨ b.Unguarded r
  | _, pair a b, r => a.Unguarded r ∨ b.Unguarded r
  | _, andThen a b, r => a.Unguarded r ∨ b.Unguarded r
  | _, map _ a, r => a.Unguarded r
  | _, many a, r => a.Unguarded r
  | _, many1 a, r => a.Unguarded r
  | _, optional a, r => a.Unguarded r
  | _, ref q, r => q = r
  | _, foreign _ _ a, r => a.Unguarded r
  | _, _, _ => False

def UnguardedIn (rules : (r : ρ) → Grammar κ τ σ (τ r)) (r q : ρ) : Prop := (rules r).Unguarded q

variable {rules : (r : ρ) → Grammar Empty τ σ (τ r)} {c d : Context σ} {n : Nat}

/-- At this depth every rule ends on levels above that of `c`, and the rules in `unguarded` also on
that level itself. -/
def RulesEndAbove (rules : (r : ρ) → Grammar Empty τ σ (τ r)) (depth n : Nat) (c : Context σ)
    (unguarded : ρ → Prop) : Prop :=
  ∀ r (d : Context σ), d.UnderLimit n →
    c.nestLevel < d.nestLevel ∨ (d.nestLevel = c.nestLevel ∧ unguarded r) →
    (unfold rules depth r d).Ends

namespace RulesEndAbove

variable {depth : Nat} {unguarded unguarded' : ρ → Prop}

theorem mono (h : RulesEndAbove rules depth n c unguarded)
    (hu : ∀ r, unguarded' r → unguarded r) : RulesEndAbove rules depth n c unguarded' := by
  intro r d hd hcase
  rcases hcase with hlt | ⟨heq, hr⟩
  · exact h r d hd (.inl hlt)
  · exact h r d hd (.inr ⟨heq, hu r hr⟩)

theorem of_reaches (h : RulesEndAbove rules depth n c unguarded) (hd : c.Reaches d) :
    RulesEndAbove rules depth n d unguarded := by
  unfold RulesEndAbove
  rw [hd.nestLevel_eq]
  exact h

theorem deeper (h : RulesEndAbove rules depth n c unguarded) (unguarded' : ρ → Prop) :
    RulesEndAbove rules depth n (c.withLevel (c.nestLevel + 1)) unguarded' := by
  intro r d hd hcase
  have hlevel : c.nestLevel + 1 ≤ d.nestLevel := by
    rcases hcase with hlt | ⟨heq, -⟩
    · exact Nat.le_of_lt hlt
    · exact Nat.le_of_eq heq.symm
  exact h r d hd (.inl hlevel)

theorem second {β : Type} {a : Grammar Empty τ σ α} {b : Grammar Empty τ σ β} {t : List Event}
    {v : α} (h : RulesEndAbove rules depth n c fun r => a.Unguarded r ∨ b.Unguarded r)
    (ha : run rules depth a c = ⟨t, .ok (.success v d)⟩) :
    RulesEndAbove rules depth n d b.Unguarded :=
  (h.of_reaches (run_forward depth a ha)).mono fun _ => .inr

end RulesEndAbove

/-- What is enough for a grammar to end under the limit `n`. Only a nested part gets a higher level,
and it is the only one that drops what is known of unguarded references. -/
theorem prevents_unfinished_under_limit (depth n : Nat) : Prevents rules depth .unfinished
    fun g (c : Context σ) => c.UnderLimit n ∧ RulesEndAbove rules depth n c g.Unguarded where
  placed _ hh := by cases hh
  or h := ⟨⟨h.1, h.2.mono fun _ => .inl⟩, ⟨h.1, h.2.mono fun _ => .inr⟩⟩
  pair {_ _ a _ _} h := ⟨⟨h.1, h.2.mono fun _ => .inl⟩,
    fun _ _ _ ha => ⟨h.1.of_reaches (run_forward depth a ha), h.2.second ha⟩⟩
  andThen {_ _ a _ _} h := ⟨⟨h.1, h.2.mono fun _ => .inl⟩,
    fun _ _ _ ha => ⟨h.1.of_reaches (run_forward depth a ha), h.2.second ha⟩⟩
  map h := h
  many h hd := ⟨h.1.of_reaches hd, h.2.of_reaches hd⟩
  many1 h hd := ⟨h.1.of_reaches hd, h.2.of_reaches hd⟩
  optional h := h
  nested h hl := ⟨h.1.deeper hl, h.2.deeper _⟩
  ref {r c} h := h.2 r c h.1 (.inr ⟨rfl, rfl⟩)

theorem exists_depth_under_limit [Finite ρ]
    (guarded : ∀ r, ¬ Relation.TransGen (UnguardedIn rules) r r) (n : Nat) :
    ∃ depth₀, ∀ depth ≥ depth₀, ∀ r (c : Context σ), c.UnderLimit n →
      (unfold rules depth r c).Ends := by
  -- the levels that are left below the limit are what falls
  obtain ⟨depth₀, h⟩ := exists_depth_of_descent guarded (Context.UnderLimit n)
    (fun c : Context σ => n - c.nestLevel)
    (fun depth r c hc hless => by
      refine (prevents_unfinished_under_limit depth n).run_ne (rules r) ⟨hc, fun q d hd hcase => ?_⟩
      apply hless q d hd
      have hcn := hc.2
      have hdn := hd.2
      rcases hcase with hlt | ⟨heq, hq⟩
      · exact .inl (by omega)
      · exact .inr ⟨by rw [heq], hq⟩) n
  exact ⟨depth₀, fun depth hd r c hc => h depth hd r c hc (Nat.sub_le _ _)⟩

/-- Under a nest limit that every cycle of references has to pay for, every run comes to an end that
no greater depth changes, and to an outcome wherever the text can be read. -/
theorem run_terminates_under_limit [Finite ρ]
    (guarded : ∀ r, ¬ Relation.TransGen (UnguardedIn rules) r r) (g : Grammar Empty τ σ α)
    {c : Context σ} (hlimit : c.options.nestLimit = some n) (hlevel : c.nestLevel ≤ n) :
    ∃ depth₀ x, (∀ depth ≥ depth₀, run rules depth g c = x) ∧ x.result ≠ .error .unfinished ∧
      (c.Placed → ∃ o, x.result = .ok o) := by
  have hc : c.UnderLimit n := ⟨hlimit, hlevel⟩
  obtain ⟨depth₀, hrules⟩ := exists_depth_under_limit guarded n
  have hends : (run rules depth₀ g c).Ends :=
    (prevents_unfinished_under_limit depth₀ n).run_ne g
      ⟨hc, fun r d hd _ => hrules depth₀ (Nat.le_refl _) r d hd⟩
  exact ⟨depth₀, run rules depth₀ g c, fun depth hd => run_extends hd g c hends, hends,
    fun hplaced => exists_outcome_of_ends hplaced hends⟩

/-- Sums of ones with the recursion on the left, inside a repetition that may find nothing. -/
def leftSums : Unit → Grammar Empty (fun _ : Unit => Nat) Nat Nat := fun _ =>
  or (lift₂ (fun ns n => ns.foldl (· + ·) n) (many (nested (ref ()))) (map (fun _ => 1) (char '1')))
    (map (fun _ => 0) (optional (char '+')))

theorem leftSums_terminates_under_limit :
    (∀ r, ¬ Relation.TransGen (UnguardedIn leftSums) r r) ∧
    ∃ depth₀ x, (∀ depth ≥ depth₀, run leftSums depth (many1 (ref ()))
        ((Context.start ['1', '+', '1'] 0).withOptions ⟨some 3, true⟩) = x) ∧
      x.result ≠ .error .unfinished ∧
      (((Context.start ['1', '+', '1'] 0).withOptions ⟨some 3, true⟩).Placed →
        ∃ o, x.result = .ok o) := by
  have guarded (r : Unit) : ¬ Relation.TransGen (UnguardedIn leftSums) r r := by
    intro h
    obtain ⟨q, hfirst, -⟩ := Relation.TransGen.head'_iff.mp h
    rcases hfirst with (h | h) | h <;> exact h
  exact ⟨guarded, run_terminates_under_limit guarded (many1 (ref ())) rfl (by decide)⟩

end Grammar

end StreamParser
