import Mathlib.Data.Fintype.Order
import StreamParser.Proofs.Halting

/-!
# Descent through rules

The recursion through a finite set of rules ends if between two visits of a rule a measure of the
context falls, or the measure stays and the rule leads to the other one in a relation without
cycles. How deep the rules have to be unfolded depends on the measure alone.
-/

namespace StreamParser

namespace Grammar

variable {ρ : Type} {τ : ρ → Type} {σ : Type} {rules : (r : ρ) → Grammar Empty τ σ (τ r)}
variable {R : ρ → ρ → Prop}

theorem wellFounded_of_acyclic [Finite ρ] (acyclic : ∀ r, ¬ Relation.TransGen R r r) :
    WellFounded (Function.swap R) := by
  have htrans : IsTrans ρ (Relation.TransGen (Function.swap R)) :=
    ⟨fun _ _ _ => Relation.TransGen.trans⟩
  have hirrefl : Std.Irrefl (Relation.TransGen (Function.swap R)) :=
    ⟨fun r hr => acyclic r (Relation.transGen_swap.mp hr)⟩
  exact Subrelation.wf .single
    (Finite.wellFounded_of_trans_of_irrefl (Relation.TransGen (Function.swap R)))

/-- Some depth does for all rules and all contexts of measure `n` at most. -/
theorem exists_depth_of_descent [Finite ρ] (acyclic : ∀ r, ¬ Relation.TransGen R r r)
    (Q : Context σ → Prop) (measure : Context σ → Nat)
    (step : ∀ depth r c, Q c →
      (∀ q d, Q d → measure d < measure c ∨ (measure d = measure c ∧ R r q) →
        (unfold rules depth q d).Ends) → (run rules depth (rules r) c).Ends) (n : Nat) :
    ∃ depth₀, ∀ depth ≥ depth₀, ∀ r (c : Context σ), Q c → measure c ≤ n →
      (unfold rules depth r c).Ends := by
  induction n using Nat.strong_induction_on with
  | _ n ihn =>
    -- what is needed below the measure
    obtain ⟨below, hbelow⟩ : ∃ below, ∀ depth ≥ below, ∀ r (c : Context σ), Q c →
        measure c < n → (unfold rules depth r c).Ends := by
      cases n with
      | zero => exact ⟨0, fun _ _ _ _ _ hc => absurd hc (Nat.not_lt_zero _)⟩
      | succ n =>
        obtain ⟨below, h⟩ := ihn n (Nat.lt_succ_self n)
        exact ⟨below, fun depth hd r c hQ hc => h depth hd r c hQ (Nat.le_of_lt_succ hc)⟩
    -- and at the measure, rule by rule: the relation leads to a rule that is done
    have hrule : ∀ r, ∃ depth₀, ∀ depth ≥ depth₀, ∀ c : Context σ, Q c → measure c ≤ n →
        (unfold rules depth r c).Ends := by
      intro r
      induction r using (wellFounded_of_acyclic acyclic).induction with
      | _ r ihr =>
        choose! need hneed using ihr
        obtain ⟨most, hmost⟩ := Finite.exists_le need
        refine ⟨max below most + 1, fun depth hd c hQ hc => ?_⟩
        obtain ⟨depth, rfl⟩ : ∃ k, depth = k + 1 := ⟨depth - 1, by omega⟩
        refine step depth r c hQ fun q d hQd hq => ?_
        rcases hq with hlt | ⟨heq, hq⟩
        · exact hbelow depth (by omega) q d hQd (by omega)
        · have hle := hmost q
          exact hneed q hq depth (by omega) d hQd (by omega)
    choose need hneed using hrule
    obtain ⟨most, hmost⟩ := Finite.exists_le need
    exact ⟨most, fun depth hd r c hQ hc => hneed r depth (Nat.le_trans (hmost r) hd) c hQ hc⟩

end Grammar

end StreamParser
