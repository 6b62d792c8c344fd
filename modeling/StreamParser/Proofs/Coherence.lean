import StreamParser.Proofs.Evaluation

/-!
# Coherence of contexts

Every outcome of a library parser carries the context it began with, advanced over some of what
remained and perhaps in another state. One induction over evaluations shows it; the other fields
of the context then follow from the algebra of advancing.
-/

namespace StreamParser

namespace Grammar

variable {ρ : Type} {τ : ρ → Type} {σ α : Type} {rules : (r : ρ) → Grammar Empty τ σ (τ r)}
variable {g : Grammar Empty τ σ α} {c : Context σ} {t : List Event} {o : Outcome σ α}

theorem Yields.reaches (h : Yields rules g c t o) : c.Reaches o.context := by
  induction h with
  | charEnd | charOther | notCharEnd | notCharFound | satisfyEnd | satisfyOther | endFound
  | endOther | noChoice | just | state | charsUntilEmpty | patternEnd | patternOther
  | nestedRefused => exact .refl _
  | charFound hr => exact .consume_head hr
  | notCharOther hr _ => exact .consume_head hr
  | satisfyFound hr _ => exact .consume_head hr
  | update => exact .withState _ _
  | @skipSpaces c rest hr =>
    rw [← List.takeWhile_append_dropWhile (p := (· = ' ')) (l := rest)] at hr
    exact .consume hr
  | @charsUntilRun x c text hr _ =>
    rw [← Parser.without_append_dropWhile x text] at hr
    exact .consume hr
  | patternFound _ hr _ => exact .consume hr
  | orFirst _ ih => exact ih
  | orSecond _ _ _ ih => exact ih
  | pairFirst _ _ => exact .refl _
  | pairSecond _ _ _ _ => exact .refl _
  | pairBoth _ _ iha ihb => exact iha.trans ihb
  | andThenFirst _ ih => exact ih
  | @andThenBoth _ _ _ _ _ _ _ _ _ o _ _ iha ihb =>
    rw [Outcome.context_map]
    exact iha.trans ihb
  | map _ ih =>
    rw [Outcome.context_map]
    exact ih
  | manyFailed _ _ => exact .refl _
  | manyStayed _ _ _ => exact .refl _
  | manyMoved _ _ _ iha ihrest => exact iha.trans ihrest
  | many1Failed _ ih => exact ih
  | many1Found _ _ iha ihrest => exact iha.trans ihrest
  | optionalFound _ ih => exact ih
  | optionalFailed _ _ => exact .refl _
  | nestedAllowed _ _ ih =>
    rw [Outcome.context_withLevel]
    exact .ofLevel ih
  | ref _ ih => exact ih

/-- The context of an outcome is the one at the start, `k` characters further and in some state. -/
theorem run_context_eq_advance {depth : Nat} (hc : c.Placed)
    (h : run rules depth g c = ⟨t, .ok o⟩) :
    ∃ s k, k ≤ c.remaining.length ∧ o.context = (c.withState s).advance k ∧
      o.context.input = c.input ∧ o.context.position.stream = c.position.stream ∧
      o.context.options = c.options ∧ o.context.nestLevel = c.nestLevel ∧
      o.context.remaining? = some (c.remaining.drop k) ∧
      o.context.position = c.position.advance (c.remaining.take k) := by
  obtain ⟨s, k, hk, hctx⟩ := (yields_of_run h).reaches
  refine ⟨s, k, hk, hctx, ?_⟩
  rw [hctx]
  have hstream : ((c.withState s).advance k).position.stream = c.position.stream :=
    Position.advance_stream _ _
  have hrest : ((c.withState s).advance k).remaining? = some (c.remaining.drop k) := by
    rw [Context.remaining?_advance, Context.remaining?_withState,
      Context.remaining?_of_placed hc, Option.map_some]
  exact ⟨rfl, hstream, rfl, rfl, hrest, rfl⟩

/-- Brackets are passed and the state is changed before the failure, and both stay in its context. -/
theorem parens_context_eq_advance :
    (Context.start ['(', '(', ')', ')', 'y'] 0).Placed ∧
    ∃ t o, run parens 4 (andThen (ref ()) (andThen (update (· + 1)) (char 'x')))
        (Context.start ['(', '(', ')', ')', 'y'] 0) = ⟨t, .ok o⟩ ∧
      o.isSuccess = false ∧ o.context.state = 1 ∧ o.context.remaining = ['y'] ∧
      ∃ s k, k ≤ 5 ∧ o.context = ((Context.start ['(', '(', ')', ')', 'y'] 0).withState s).advance k := by
  have placed : (Context.start ['(', '(', ')', ')', 'y'] 0).Placed := by decide
  have ran : run parens 4 (andThen (ref ()) (andThen (update (· + 1)) (char 'x')))
      (Context.start ['(', '(', ')', ')', 'y'] 0) = ⟨_, .ok _⟩ := rfl
  obtain ⟨s, k, hk, hctx, -⟩ := run_context_eq_advance placed ran
  exact ⟨placed, _, _, ran, rfl, rfl, by decide, s, k, hk, hctx⟩

end Grammar

end StreamParser
