import StreamParser.Proofs.Coherence

/-!
# Failures that leave the context as it was

A failure may carry a context that has moved on, or whose state has changed, only where a sequence
ends the chain of combinators that hand a failure on unchanged. `Leaks` follows these chains, through
the rules as well; a grammar that does not leak fails with the very context it was run on.
-/

namespace StreamParser

namespace Grammar

variable {ρ : Type} {τ : ρ → Type} {σ α β γ : Type} {rules : (r : ρ) → Grammar Empty τ σ (τ r)}

/-- A failure may come from within a sequence and be handed on as it is. -/
inductive Leaks (rules : (r : ρ) → Grammar Empty τ σ (τ r)) :
    {α : Type} → Grammar Empty τ σ α → Prop where
  | andThen {α β : Type} (a : Grammar Empty τ σ α) (b : Grammar Empty τ σ β) :
      Leaks rules (.andThen a b)
  | or {α : Type} (a : Grammar Empty τ σ α) {b : Grammar Empty τ σ α} (hb : Leaks rules b) :
      Leaks rules (.or a b)
  | map {α β : Type} (f : α → β) {a : Grammar Empty τ σ α} (ha : Leaks rules a) :
      Leaks rules (.map f a)
  | many1 {α : Type} {a : Grammar Empty τ σ α} (ha : Leaks rules a) : Leaks rules (.many1 a)
  | nested {α : Type} {a : Grammar Empty τ σ α} (ha : Leaks rules a) : Leaks rules (.nested a)
  | ref {r : ρ} (hr : Leaks rules (rules r)) : Leaks rules (.ref r)

theorem leaks_iff {g : Grammar Empty τ σ α} : Leaks rules g ↔
    match α, g with
    | _, .andThen _ _ => True
    | _, .or _ b => Leaks rules b
    | _, .map _ a => Leaks rules a
    | _, .many1 a => Leaks rules a
    | _, .nested a => Leaks rules a
    | _, .ref r => Leaks rules (rules r)
    | _, _ => False := by
  constructor
  · intro h
    cases h with
    | andThen => trivial
    | or _ hb => exact hb
    | map _ ha => exact ha
    | many1 ha => exact ha
    | nested ha => exact ha
    | ref hr => exact hr
  · cases g with
    | andThen a b => exact fun _ => .andThen a b
    | or a b => exact .or a
    | map f a => exact .map f
    | many1 a => exact .many1
    | nested a => exact .nested
    | ref r => exact .ref
    | _ => exact False.elim

/-! ### The derived forms -/

theorem not_leaks_pair (a : Grammar Empty τ σ α) (b : Grammar Empty τ σ β) :
    ¬ Leaks rules (pair a b) := fun h => leaks_iff.mp h

theorem leaks_map_iff {f : α → β} {a : Grammar Empty τ σ α} :
    Leaks rules (map f a) ↔ Leaks rules a := leaks_iff

theorem leaks_or_iff {a b : Grammar Empty τ σ α} : Leaks rules (or a b) ↔ Leaks rules b := leaks_iff

theorem leaks_foldl_or_iff (a : Grammar Empty τ σ α) (as : List (Grammar Empty τ σ α)) :
    Leaks rules (as.foldl or a) ↔ Leaks rules ((a :: as).getLast (List.cons_ne_nil a as)) := by
  induction as generalizing a with
  | nil => rfl
  | cons b as ih =>
    rw [List.foldl_cons, ih, List.getLast_cons_cons]
    cases as with
    | nil => exact leaks_or_iff
    | cons d as => rw [List.getLast_cons_cons, List.getLast_cons_cons]

theorem leaks_choice_iff {as : List (Grammar Empty τ σ α)} (hne : as ≠ []) :
    Leaks rules (choice as) ↔ Leaks rules (as.getLast hne) := by
  cases as with
  | nil => exact absurd rfl hne
  | cons a as => exact leaks_foldl_or_iff a as

theorem leaks_sequence (a : Grammar Empty τ σ α) (as : List (Grammar Empty τ σ α)) :
    Leaks rules (sequence (a :: as)) := .map _ (.andThen _ _)

theorem leaks_between (a : Grammar Empty τ σ α) (b : Grammar Empty τ σ β)
    (d : Grammar Empty τ σ γ) : Leaks rules (between a b d) := .map _ (.andThen _ _)

theorem not_leaks_literalThenSpace (text : String) :
    ¬ Leaks rules (literalThenSpace text) :=
  fun h => not_leaks_pair _ _ (leaks_map_iff.mp h)

/-! ### Failures of grammars that do not leak -/

variable {g : Grammar Empty τ σ α} {c f : Context σ} {t : List Event} {o : Outcome σ α}

theorem Yields.context_eq_of_not_leaks (h : Yields rules g c t o) (hg : ¬ Leaks rules g)
    {e : ParseError} (he : o.error? = some e) : o.context = c := by
  induction h generalizing e with
  | charFound | notCharOther | satisfyFound | endFound | just | state | update | skipSpaces
  | charsUntilRun | patternFound | orFirst | pairBoth | manyFailed | manyStayed | manyMoved
  | many1Found | optionalFound | optionalFailed => cases he
  | charEnd | charOther | notCharEnd | notCharFound | satisfyEnd | satisfyOther | endOther
  | noChoice | charsUntilEmpty | patternEnd | patternOther | nestedRefused | pairFirst
  | pairSecond => rfl
  | orSecond _ _ _ ihb => exact ihb (fun hb => hg (.or _ hb)) he
  | andThenFirst | andThenBoth => exact absurd (.andThen _ _) hg
  | map _ ih =>
    rw [Outcome.error?_map] at he
    rw [Outcome.context_map]
    exact ih (fun ha => hg (.map _ ha)) he
  | many1Failed _ iha =>
    cases he
    exact iha (fun ha => hg (.many1 ha)) rfl
  | nestedAllowed _ _ ih =>
    rw [Outcome.error?_withLevel] at he
    rw [Outcome.context_withLevel, ih (fun ha => hg (.nested ha)) he, Context.withLevel_withLevel,
      Context.withLevel_self]
  | ref _ ih => exact ih (fun hr => hg (.ref hr)) he

/-- A grammar that does not leak fails with the context it was run on. -/
theorem run_failure_context_eq {depth : Nat} {e : ParseError} (hg : ¬ Leaks rules g)
    (h : run rules depth g c = ⟨t, .ok (.failure e f)⟩) : f = c :=
  (yields_of_run h).context_eq_of_not_leaks hg rfl

/-- Both alternatives hold parts that leak, but the second reports where it began. -/
def closedOrDoubled : Grammar Empty (fun _ : Unit => Nat) Nat Nat :=
  or (between (char '(') (ref ()) (char 'x')) (preceded (sequence [char '(', char '(']) (ref ()))

theorem closedOrDoubled_failure_context_eq :
    ¬ Leaks parens closedOrDoubled ∧
    ∃ t e f, run parens 3 closedOrDoubled (Context.start ['(', 'y'] 7) = ⟨t, .ok (.failure e f)⟩ ∧
      f = Context.start ['(', 'y'] 7 := by
  have noLeak : ¬ Leaks parens closedOrDoubled := fun h =>
    not_leaks_pair _ _ (leaks_map_iff.mp (leaks_or_iff.mp h))
  have ran : run parens 3 closedOrDoubled (Context.start ['(', 'y'] 7) = ⟨_, .ok (.failure _ _)⟩ :=
    rfl
  exact ⟨noLeak, _, _, _, ran, run_failure_context_eq noLeak ran⟩

end Grammar

end StreamParser
