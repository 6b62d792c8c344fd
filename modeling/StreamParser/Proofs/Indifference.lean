import StreamParser.Proofs.Likeness

/-!
# A state that is not read

Where a grammar has no part that reads the state, the state decides nothing: runs that begin in two
states log the same and come to the same, and the updates that are in force at the end are the same
for both. Those of an abandoned branch are not among them.
-/

namespace StreamParser

variable {σ α : Type}

def follow (fs : List (σ → σ)) (s : σ) : σ := fs.foldl (fun s f => f s) s

theorem follow_concat (fs : List (σ → σ)) (f : σ → σ) (s : σ) :
    follow (fs ++ [f]) s = f (follow fs s) := List.foldl_concat ..

def Outcome.withState (s : σ) : Outcome σ α → Outcome σ α
  | .success v c => .success v (c.withState s)
  | .failure e c => .failure e (c.withState s)

namespace Likeness

/-- Contexts that differ in their states only, where the same updates lead from `s₀` to the one state
and from `s₁` to the other. -/
def restated (P : (σ → σ) → Prop) (s₀ s₁ : σ) : Likeness σ where
  contexts c d := d = c.withState d.state ∧
    ∃ fs, (∀ f ∈ fs, P f) ∧ c.state = follow fs s₀ ∧ d.state = follow fs s₁
  errors := Eq
  events := Eq
  stray _ := False

variable {P : (σ → σ) → Prop} {s₀ s₁ : σ}

theorem restated_readable : (restated P s₀ s₁).Readable where
  remaining?_eq h := by rw [h.1]; rfl
  isEmpty_eq h := by rw [h.1]; rfl
  consume h _ := ⟨by rw [h.1]; rfl, h.2⟩
  mismatch h x y := by rw [h.1]; rfl
  fallback h := by rw [h.1]; rfl
  error h cause _ := by rw [h.1]; rfl
  errorAtEnd h w := by rw [h.1]; rfl
  errorAtMismatch h x y := by rw [h.1]; rfl

theorem restated_respectsNesting : (restated P s₀ s₁).RespectsNesting := by
  apply restated_readable.respectsNesting
  · intro c d h
    rw [h.1]
    rfl
  · intro c d h
    rw [h.1]
    rfl
  · intro c d l h
    exact ⟨by rw [h.1]; rfl, h.2⟩
  · intro c d h
    rw [h.1]
    rfl

theorem restated_update {f : σ → σ} (hf : P f) :
    (restated P s₀ s₁).Parsers (Parser.update f) (Parser.update f) := by
  intro c d h
  obtain ⟨hd, fs, hfs, hc, hd'⟩ := h
  refine .pure (.success ⟨?_, fs ++ [f], ?_, ?_, ?_⟩)
  · rw [hd]
    rfl
  · exact List.forall_mem_append.mpr ⟨hfs, List.forall_mem_singleton.mpr hf⟩
  · rw [follow_concat, ← hc]
    rfl
  · rw [follow_concat, ← hd']
    rfl

theorem restated_outcome {o o' : Outcome σ α} (h : (restated P s₀ s₁).Outcomes o o') :
    ∃ fs, (∀ f ∈ fs, P f) ∧ o' = o.withState (follow fs s₁) ∧ o.context.state = follow fs s₀ := by
  cases h with
  | @success v c d h =>
    obtain ⟨hd, fs, hfs, hc, hd'⟩ := h
    rw [hd, hd']
    exact ⟨fs, hfs, rfl, hc⟩
  | @failure e e' c d he h =>
    obtain ⟨hd, fs, hfs, hc, hd'⟩ := h
    have hsame : e = e' := he
    rw [hd, hd', hsame]
    exact ⟨fs, hfs, rfl, hc⟩

theorem restated_eq {x y : Run (Outcome σ α)}
    (h : (restated P s₀ s₁).Runs (restated P s₀ s₁).Outcomes x y) :
    ∃ fs, (∀ f ∈ fs, P f) ∧ y = Outcome.withState (follow fs s₁) <$> x ∧
      ∀ o, x.result = .ok o → o.context.state = follow fs s₀ := by
  obtain ⟨t, xr⟩ := x
  obtain ⟨u, yr⟩ := y
  rcases h with ⟨e, he, hstray⟩ | ⟨htrace, hanswer⟩
  · exact hstray.elim
  · have htu : t = u := List.forall₂_eq_eq_eq ▸ htrace
    subst htu
    cases hanswer with
    | error h =>
      refine ⟨[], List.forall_mem_nil _, rfl, ?_⟩
      intro o ho
      cases ho
    | @ok o o' ho =>
      obtain ⟨fs, hfs, rfl, hstate⟩ := restated_outcome ho
      refine ⟨fs, hfs, ?_, ?_⟩
      · rw [map_eq_pure_bind, Run.ok_bind, Run.pure_eq, List.append_nil]
      · intro o' ho'
        cases ho'
        exact hstate

end Likeness

namespace Grammar

variable {ρ : Type} {τ : ρ → Type} {rules : (r : ρ) → Grammar Empty τ σ (τ r)}
variable {g : Grammar Empty τ σ α}

/-- In another state the run is the same but for the state at the end, to which the same updates of
the grammar have led. -/
theorem run_withState (hg : ¬ HasPart rules (state : Grammar Empty τ σ σ) g) (depth : Nat)
    (c : Context σ) (s : σ) :
    ∃ fs : List (σ → σ), (∀ f ∈ fs, HasPart rules (update f) g) ∧
      run rules depth g (c.withState s) =
        Outcome.withState (follow fs s) <$> run rules depth g c ∧
      ∀ o, (run rules depth g c).result = .ok o → o.context.state = follow fs c.state := by
  have hlike := like_run_of_parts Likeness.restated_readable Likeness.restated_respectsNesting g
    (fun hs => (hg hs).elim) (fun f hf => Likeness.restated_update hf) depth c (c.withState s)
    ⟨rfl, [], List.forall_mem_nil _, rfl, rfl⟩
  exact Likeness.restated_eq hlike

/-- Balanced brackets, counted in the state, or letters `a`, before which the state is doubled. -/
def countedParens : Unit → Grammar Empty (fun _ : Unit => Nat) Nat Nat := fun _ =>
  or (between (andThen (char '(') (update (· + 1))) (nested (ref ())) (char ')'))
    (map List.length (preceded (update (· * 2)) (many (andThen (update (· + 3)) (char 'a')))))

/-- What was done in the bracket that is not closed is undone, and so is each round that finds no
letter. -/
theorem countedParens_withState :
    let g := andThen (ref ()) (andThen (ref ()) (char 'b'))
    let text := ['(', 'a', ')', '(', 'a']
    ¬ HasPart countedParens (state : Grammar Empty (fun _ : Unit => Nat) Nat Nat) g ∧
    ∃ fs, (∀ f ∈ fs, HasPart countedParens (update f) g) ∧ follow fs 5 = ((5 + 1) * 2 + 3) * 2 ∧
      run countedParens 3 g (Context.start text 7) =
        Outcome.withState (follow fs 7) <$> run countedParens 3 g (Context.start text 5) := by
  intro g text
  have hg : ¬ HasPart countedParens (state : Grammar Empty (fun _ : Unit => Nat) Nat Nat) g :=
    not_hasPart_state (fun _ => rfl) rfl
  obtain ⟨fs, hfs, hsame, hstate⟩ := run_withState hg 3 (Context.start text 5) 7
  have hends : (run countedParens 3 g (Context.start text 5)).result.toOption.map
      (·.context.state) = some (((5 + 1) * 2 + 3) * 2) := by decide +kernel
  refine ⟨hg, fs, hfs, ?_, hsame⟩
  cases hr : (run countedParens 3 g (Context.start text 5)).result with
  | error h =>
    rw [hr] at hends
    cases hends
  | ok o =>
    rw [hr] at hends
    have hfollow : o.context.state = follow fs 5 := hstate o hr
    rw [← hfollow]
    exact Option.some.inj hends

end Grammar

end StreamParser
