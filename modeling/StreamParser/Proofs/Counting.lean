import Mathlib.Logic.Function.Iterate
import StreamParser.Proofs.Indifference
import StreamParser.Proofs.Repetition
import StreamParser.Proofs.Termination

/-!
# Counting in the state

A parser that has nothing to do with the state does the same in every state and hands it on as it was.
Followed by an update it is repeated as it is without, round by round, and each value that is found costs
one update. The attempt that ends the repetition costs nothing: its update is not reached where nothing
is found, and it is undone where nothing is read.
-/

namespace StreamParser

/-- A repetition from the state `s`, where each of its values has cost one `f`. -/
def Outcome.counted {σ α : Type} (f : σ → σ) (s : σ) : Outcome σ (List α) → Outcome σ (List α)
  | .success vs d => .success vs (d.withState (f^[vs.length] s))
  | .failure e d => .failure e d

namespace Parser

variable {σ α : Type} {p : Parser σ α} {c d : Context σ} {t : List Event} {v : α}

/-- In every state `p` does the same, and the state is handed on as it is. -/
def Oblivious (p : Parser σ α) : Prop :=
  ∀ (c : Context σ) (s : σ), p (c.withState s) = Outcome.withState s <$> p c

namespace Oblivious

theorem withState_halts {h : Halt} (hp : p.Oblivious) (hc : p c = ⟨t, .error h⟩) (s : σ) :
    p (c.withState s) = ⟨t, .error h⟩ := by
  rw [hp, hc, Run.map_eq]
  rfl

theorem withState_eq_ok {o : Outcome σ α} (hp : p.Oblivious) (hc : p c = ⟨t, .ok o⟩) (s : σ) :
    p (c.withState s) = ⟨t, .ok (o.withState s)⟩ := by
  rw [hp, hc, Run.map_eq]
  rfl

variable (f : σ → σ) (s : σ)

theorem terminated_update_of_success (hp : p.Oblivious) (hv : p c = ⟨t, .ok (.success v d)⟩) :
    terminated p (update f) (c.withState s) = ⟨t, .ok (.success v (d.withState (f s)))⟩ := by
  apply map_pair_eq_ok.mpr
  exact .inr ⟨t, v, d.withState s, [], hp.withState_eq_ok hv s, (List.append_nil t).symm,
    .inr ⟨(), _, rfl, rfl⟩⟩

theorem terminated_update_of_failure {e : ParseError} (hp : p.Oblivious)
    (he : p c = ⟨t, .ok (.failure e d)⟩) :
    terminated p (update f) (c.withState s) = ⟨t, .ok (.failure e (c.withState s))⟩ :=
  map_pair_eq_ok.mpr (.inl ⟨e, d.withState s, hp.withState_eq_ok he s, rfl⟩)

theorem terminated_update_halts {h : Halt} (hp : p.Oblivious) (hc : p c = ⟨t, .error h⟩) :
    terminated p (update f) (c.withState s) = ⟨t, .error h⟩ := by
  rw [terminated, map, pair, hp.withState_halts hc]
  rfl

theorem repeated_counted (hp : p.Oblivious) (n : Nat) (c : Context σ) (s : σ) :
    repeated (terminated p (update f)) n (c.withState s) =
      (fun r => (r.1, r.2.withState (f^[r.1.length] s))) <$> repeated p n c := by
  rw [Run.map_eq]
  -- The second repetition stands where the first one does, in the state that the rounds so far have led to.
  induction n using Nat.strongRecOn generalizing c s with
  | ind n ih =>
    rcases hc : p c with ⟨t, h | ⟨v, d⟩ | ⟨e, d⟩⟩
    · have hc' := hp.terminated_update_halts f s hc
      rw [repeated, repeated, hc, hc']
      rfl
    · have hv := hp.terminated_update_of_success f s hc
      rcases c.stays_or_moves d with hs | hm | hm
      · rw [repeated_of_stays hc hs, repeated_of_stays hv hs]
        rfl
      · cases n with
        | zero =>
          rw [repeated_of_moves_zero hc hm, repeated_of_moves_zero hv hm]
          rfl
        | succ n =>
          rw [repeated_of_moves hc hm, repeated_of_moves hv hm, ih n (Nat.lt_succ_self n)]
          cases (repeated p n d).result <;> rfl
      · rw [repeated_of_misplaced hc hm, repeated_of_misplaced hv hm]
        rfl
    · have he := hp.terminated_update_of_failure f s hc
      rw [repeated_of_failure hc, repeated_of_failure he]
      rfl

theorem many_counted (hp : p.Oblivious) (c : Context σ) :
    many (terminated p (update f)) c = Outcome.counted f c.state <$> many p c := by
  have hrounds := hp.repeated_counted f (byteSize c.remaining) c c.state
  rw [Context.withState_self] at hrounds
  rw [many, many, hrounds]
  simp only [map_eq_pure_bind, bind_assoc, pure_bind]
  rfl

end Oblivious

end Parser

namespace Grammar

variable {ρ : Type} {τ : ρ → Type} {σ α : Type} {rules : (r : ρ) → Grammar Empty τ σ (τ r)}
variable {g : Grammar Empty τ σ α}

theorem run_oblivious (hstate : ¬ HasPart rules (state : Grammar Empty τ σ σ) g)
    (hupdate : ∀ f, ¬ HasPart rules (update f) g) (depth : Nat) : (run rules depth g).Oblivious := by
  intro c s
  -- No update is admitted, so that none can have been in force at the end.
  have hlike := like_run_of_parts Likeness.restated_readable Likeness.restated_respectsNesting g
    (fun hs => (hstate hs).elim) (fun f hf => (hupdate f hf).elim) depth c (c.withState s)
    ⟨rfl, [], List.forall_mem_nil (fun _ => False), rfl, rfl⟩
  obtain ⟨fs, hfs, hsame, -⟩ := Likeness.restated_eq hlike
  rw [List.eq_nil_iff_forall_not_mem.mpr hfs] at hsame
  exact hsame

/-- An update behind every match of a grammar that leaves the state alone counts the matches: at every
depth the repetition is the same but for the state, and where the grammar comes to outcomes there is one,
whose state is `f` of the first one as many times as there are values. -/
theorem many_counts_matches (hstate : ¬ HasPart rules (state : Grammar Empty τ σ σ) g)
    (hupdate : ∀ f, ¬ HasPart rules (update f) g) (f : σ → σ) (c : Context σ) :
    (∀ depth, run rules depth (many (terminated g (update f))) c =
      Outcome.counted f c.state <$> run rules depth (many g) c) ∧
    (c.Placed → (∀ d, c.Reaches d → ∃ depth t o, run rules depth g d = ⟨t, .ok o⟩) →
      ∃ depth₀ t vs d, ∀ depth ≥ depth₀,
        run rules depth (many g) c = ⟨t, .ok (.success vs d)⟩ ∧
        run rules depth (many (terminated g (update f))) c =
          ⟨t, .ok (.success vs (d.withState (f^[vs.length] c.state)))⟩) := by
  have hcounted (depth : Nat) : run rules depth (many (terminated g (update f))) c =
      Outcome.counted f c.state <$> run rules depth (many g) c :=
    (run_oblivious hstate hupdate depth).many_counted f c
  refine ⟨hcounted, fun hc hg => ?_⟩
  obtain ⟨depth₀, hproceeds⟩ := exists_proceeds hc hg
  obtain ⟨t, vs, d, hmany⟩ : ∃ t vs d, run rules depth₀ (many g) c = ⟨t, .ok (.success vs d)⟩ :=
    (hproceeds depth₀ (Nat.le_refl _)).exists_many
  refine ⟨depth₀, t, vs, d, ?_⟩
  intro depth hdepth
  have hrun := run_of_le hdepth hmany
  refine ⟨hrun, ?_⟩
  rw [hcounted, hrun, Run.map_eq]
  rfl

theorem parens_acyclic (r : Unit) :
    ¬ Relation.TransGen (EarlyIn (parens : Unit → Grammar Empty (fun _ : Unit => Nat) σ Nat)) r r := by
  intro h
  obtain ⟨q, hfirst, -⟩ := Relation.TransGen.head'_iff.mp h
  rcases hfirst with (hopen | ⟨hfree, -⟩) | hnone
  · exact hopen.elim
  · cases hfree
  · exact hnone.elim

/-- Two groups are found. The third match, which reads nothing, is neither among the values nor counted. -/
theorem parens_counts_matches :
    let g : Grammar Empty (fun _ : Unit => Nat) Nat Nat :=
      or (between (char '(') (ref ()) (char ')')) (just 7)
    let c := Context.start ['(', '(', ')', ')', '(', ')', 'x'] 5
    ¬ HasPart parens (state : Grammar Empty (fun _ : Unit => Nat) Nat Nat) g ∧
    (∀ f, ¬ HasPart parens (update f) g) ∧ c.Placed ∧
    (∀ d, c.Reaches d → ∃ depth t o, run parens depth g d = ⟨t, .ok o⟩) ∧
    ∃ depth₀ t vs d, vs = [1, 0] ∧ ∀ depth ≥ depth₀,
      run parens depth (many g) c = ⟨t, .ok (.success vs d)⟩ ∧
      run parens depth (many (terminated g (update (· + 1)))) c =
        ⟨t, .ok (.success vs (d.withState 7))⟩ := by
  intro g c
  have hstate : ¬ HasPart parens (state : Grammar Empty (fun _ : Unit => Nat) Nat Nat) g :=
    fun h => Bool.noConfusion (h.leavesState (fun _ => rfl) rfl)
  have hupdate (f : Nat → Nat) : ¬ HasPart parens (update f) g :=
    fun h => Bool.noConfusion (h.leavesState (fun _ => rfl) rfl)
  have hc : c.Placed := by decide
  have hg (d : Context Nat) (hd : c.Reaches d) : ∃ depth t o, run parens depth g d = ⟨t, .ok o⟩ :=
    exists_run_of_acyclic parens_acyclic g (hd.placed hc)
  obtain ⟨-, hends⟩ := many_counts_matches hstate hupdate (· + 1) c
  obtain ⟨depth₀, t, vs, d, hruns⟩ := hends hc hg
  have ran : (run parens 3 (many g) c).result.toOption.map Outcome.value? = some (some [1, 0]) := by
    decide +kernel
  have hvs : vs = [1, 0] := by
    obtain ⟨o, ho⟩ := Run.exists_of_isOk (x := run parens 3 (many g) c) (by decide +kernel)
    have hrun := (hruns (max depth₀ 3) (Nat.le_max_left _ _)).1
    cases (run_of_le (Nat.le_max_right depth₀ 3) ho).symm.trans hrun
    rw [ho] at ran
    exact Option.some.inj (Option.some.inj ran)
  refine ⟨hstate, hupdate, hc, hg, depth₀, t, vs, d, hvs, ?_⟩
  rw [hvs] at hruns ⊢
  exact hruns

end Grammar

end StreamParser
