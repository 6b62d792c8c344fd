import StreamParser.Proofs.Pairing

/-!
# The laws of functions and arguments

A parser for a function is applied to a parser for its argument as a pair of both, so that the laws of
`map`, `apply` and `lift₂` are those of pairs. A function that is just there and changes nothing is not
without effect, though: a failure of the argument is then reported at the start.
-/

namespace StreamParser

namespace Parser

variable {σ α β γ : Type}

theorem apply_compose (u : Parser σ (β → γ)) (v : Parser σ (α → β)) (w : Parser σ α) :
    apply (apply (map (· ∘ ·) u) v) w = apply u (apply v w) := by
  have huv : apply (map (· ∘ ·) u) v = map (fun x : (β → γ) × (α → β) => x.1 ∘ x.2) (pair u v) := by
    rw [apply, pair_map_left, map_map]
    rfl
  calc apply (apply (map (· ∘ ·) u) v) w
    _ = map (fun x => x.1.1 (x.1.2 x.2)) (pair (pair u v) w) := by
      rw [huv, apply, pair_map_left, map_map]
      rfl
    _ = map (fun x => x.1 (x.2.1 x.2.2)) (pair u (pair v w)) := by
      rw [← pair_assoc, map_map]
      rfl
    _ = apply u (apply v w) := by
      rw [apply, apply, pair_map_right, map_map]
      rfl

theorem apply_just (u : Parser σ (α → β)) (y : α) :
    apply u (just y) = apply (just fun f => f y) u := by
  funext c
  simp only [apply, map_eq, pair_just, just_pair, Run.map_eq]
  rcases (u c).result with h | o
  · rfl
  · cases o <;> rfl

theorem lift₂_eq_apply (f : α → β → γ) (p : Parser σ α) (q : Parser σ β) :
    lift₂ f p q = apply (map f p) q := by
  rw [apply, pair_map_left, map_map]
  rfl

theorem apply_just_id (w : Parser σ α) (c : Context σ) :
    apply (just id) w c = Outcome.reportedAt c <$> w c := by
  simp only [apply, map_eq, just_pair, Run.map_eq]
  rcases (w c).result with h | o
  · rfl
  · cases o <;> rfl

/-- The laws of functors and of applicative functors, as equations of whole runs: of values, contexts,
errors, traces and halts. Only the law of the identity is weaker: a failure is moved to the start. -/
theorem functor_and_applicative_laws (f : α → β) (g : β → γ) (h : α → β → γ) (x : α)
    (u : Parser σ (β → γ)) (v : Parser σ (α → β)) (w : Parser σ α) (p : Parser σ β) (q : Parser σ γ) :
    map id w = w ∧
    map (g ∘ f) w = map g (map f w) ∧
    apply (apply (map (· ∘ ·) u) v) w = apply u (apply v w) ∧
    apply v (just x) = apply (just fun k => k x) v ∧
    apply (just f) (just x) = (just (f x) : Parser σ β) ∧
    lift₂ h w p = apply (map h w) p ∧
    map (fun y => (y.1.1, y.1.2, y.2)) (pair (pair w p) q) = pair w (pair p q) ∧
    ∀ c, apply (just id) w c = Outcome.reportedAt c <$> w c :=
  ⟨map_id w, (map_map f g w).symm, apply_compose u v w, apply_just v x, rfl, lift₂_eq_apply h w p,
    pair_assoc w p q, apply_just_id w⟩

end Parser

end StreamParser
