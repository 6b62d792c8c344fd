import StreamParser.Proofs.Leaks

/-!
# Parsers in turn

A sequence runs its parsers in turn, each where the one before has come to, and hands on the first failure
as it is. So it fails with the error of the step that fails, in the context that this failure carries. That
is the context the step was run on unless the step leaks: a literal that breaks off, or a sequence inside
the sequence, has moved on by then.
-/

namespace StreamParser

namespace Parser

variable {σ α : Type} {p : Parser σ α} {ps : List (Parser σ α)} {c d : Context σ} {t u : List Event}

/-- From `c` on each of the parsers succeeds where the one before has come to. They log `t`, find the
values `vs` and come to `d`. -/
inductive InTurn : List (Parser σ α) → Context σ → List Event → List α → Context σ → Prop where
  | nil (c : Context σ) : InTurn [] c [] [] c
  | cons {p : Parser σ α} {ps : List (Parser σ α)} {c d e : Context σ} {t u : List Event} {v : α}
      {vs : List α} (hp : p c = ⟨t, .ok (.success v d)⟩) (hps : InTurn ps d u vs e) :
      InTurn (p :: ps) c (t ++ u) (v :: vs) e

theorem sequence_of_failure {err : ParseError} (hp : p c = ⟨t, .ok (.failure err d)⟩)
    (ps : List (Parser σ α)) : sequence (p :: ps) c = ⟨t, .ok (.failure err d)⟩ := by
  rw [sequence, map_eq_ok]
  exact ⟨.failure err d, andThen_eq_ok.mpr (.inl ⟨err, d, hp, rfl⟩), rfl⟩

theorem sequence_of_success {v : α} {o : Outcome σ (List α)} (hp : p c = ⟨t, .ok (.success v d)⟩)
    (hps : sequence ps d = ⟨u, .ok o⟩) :
    sequence (p :: ps) c = ⟨t ++ u, .ok (o.map (v :: ·))⟩ := by
  rw [sequence, map_eq_ok]
  refine ⟨o.map (v, ·), andThen_eq_ok.mpr (.inr ⟨t, v, d, u, o, hp, hps, rfl, rfl⟩), ?_⟩
  cases o <;> rfl

theorem InTurn.sequence_append {vs : List α} (h : InTurn ps c t vs d) {qs : List (Parser σ α)}
    {o : Outcome σ (List α)} (hqs : sequence qs d = ⟨u, .ok o⟩) :
    sequence (ps ++ qs) c = ⟨t ++ u, .ok (o.map (vs ++ ·))⟩ := by
  induction h with
  | nil c => cases o <;> exact hqs
  | cons hp _ ih =>
    have hstep := sequence_of_success hp (ih hqs)
    rw [List.append_assoc]
    cases o <;> exact hstep

theorem InTurn.sequence {vs : List α} (h : InTurn ps c t vs d) :
    sequence ps c = ⟨t, .ok (.success vs d)⟩ := by
  have hnone : Parser.sequence [] d = ⟨[], .ok (.success ([] : List α) d)⟩ := rfl
  have hall := h.sequence_append hnone
  rwa [List.append_nil, List.append_nil, Outcome.map_success, List.append_nil] at hall

end Parser

namespace Grammar

variable {ρ : Type} {τ : ρ → Type} {σ α : Type} {rules : (r : ρ) → Grammar Empty τ σ (τ r)}
variable {c d f : Context σ} {t u : List Event} {vs : List α}

theorem run_sequence_eq {before : List (Grammar Empty τ σ α)} {g : Grammar Empty τ σ α} {depth : Nat}
    {e : ParseError} (after : List (Grammar Empty τ σ α))
    (hbefore : Parser.InTurn (before.map (run rules depth)) c t vs d)
    (hg : run rules depth g d = ⟨u, .ok (.failure e f)⟩) :
    run rules depth (sequence (before ++ g :: after)) c = ⟨t ++ u, .ok (.failure e f)⟩ := by
  have hrest := Parser.sequence_of_failure hg (after.map (run rules depth))
  have hall := hbefore.sequence_append hrest
  rw [run, meaning_sequence, List.map_append, List.map_cons]
  exact hall

/-- The sequence fails with the very failure of the first step that fails. Its context is that in which the
step was run if the step does not leak, and else that context some characters further in some state. -/
theorem run_sequence_failing_step {before : List (Grammar Empty τ σ α)} {g : Grammar Empty τ σ α}
    {depth : Nat} {e : ParseError} (after : List (Grammar Empty τ σ α))
    (hbefore : Parser.InTurn (before.map (run rules depth)) c t vs d)
    (hg : run rules depth g d = ⟨u, .ok (.failure e f)⟩) :
    run rules depth (sequence (before ++ g :: after)) c = ⟨t ++ u, .ok (.failure e f)⟩ ∧
    (¬ Leaks rules g → f = d) ∧
    ∃ s k, k ≤ d.remaining.length ∧ f = (d.withState s).advance k := by
  have hy := yields_of_run hg
  exact ⟨run_sequence_eq after hbefore hg, fun hleak => hy.context_eq_of_not_leaks hleak rfl, hy.reaches⟩

/-- The second step holds parts that leak, but fails where it began, behind the brackets. -/
theorem parens_then_closed_failing_step :
    let c := Context.start ['(', ')', '(', 'y'] 7
    ¬ Leaks parens closedOrDoubled ∧
    ∃ t u e f, Parser.InTurn ([ref ()].map (run parens 3)) c t [1] (c.advance 2) ∧
      run parens 3 closedOrDoubled (c.advance 2) = ⟨u, .ok (.failure e f)⟩ ∧
      run parens 3 (sequence [ref (), closedOrDoubled, just 0]) c = ⟨t ++ u, .ok (.failure e f)⟩ ∧
      f = c.advance 2 := by
  intro c
  have noLeak : ¬ Leaks parens closedOrDoubled := fun h =>
    not_leaks_pair _ _ (leaks_map_iff.mp (leaks_or_iff.mp h))
  have found : Parser.InTurn ([ref ()].map (run parens 3)) c _ [1] (c.advance 2) :=
    .cons rfl (.nil _)
  have failed : run parens 3 closedOrDoubled (c.advance 2) = ⟨_, .ok (.failure _ _)⟩ := rfl
  obtain ⟨hrun, hplace, -⟩ := run_sequence_failing_step [just 0] found failed
  exact ⟨noLeak, _, _, _, _, found, failed, hrun, hplace noLeak⟩

/-- The second literal breaks off behind its first character, and there the sequence fails. -/
theorem sequence_failure_past_start_of_literal :
    let c := Context.start ['a', 'b', 'x'] 0
    let failure : Outcome Nat String := .failure
      (.located ⟨(c.advance 2).position.bumpColumn, .mismatch (.char 'c') 'x'⟩) (c.advance 2)
    Parser.InTurn ([literal "a"].map (run parens 0)) c [] ["a"] (c.advance 1) ∧
    run parens 0 (literal "bc") (c.advance 1) =
      ⟨[.mismatch 'c' 'x' (c.advance 2).position], .ok failure⟩ ∧
    run parens 0 (sequence [literal "a", literal "bc"]) c =
      ⟨[.mismatch 'c' 'x' (c.advance 2).position], .ok (failure.map fun _ => [])⟩ ∧
    (c.advance 1).remaining = ['b', 'x'] ∧ (c.advance 2).remaining = ['x'] := by
  intro c failure
  have first : run parens 0 (literal "a") c = ⟨[], .ok (.success "a" (c.advance 1))⟩ := rfl
  have found : Parser.InTurn ([literal "a"].map (run parens 0)) c [] ["a"] (c.advance 1) :=
    .cons first (.nil _)
  have failed : run parens 0 (literal "bc") (c.advance 1) =
      ⟨[.mismatch 'c' 'x' (c.advance 2).position], .ok failure⟩ := by
    rw [run, meaning_literal]
    rfl
  have ran := run_sequence_eq [] found failed
  exact ⟨found, failed, ran, by decide, by decide⟩

end Grammar

end StreamParser
