import StreamParser.Proofs.Likeness
import StreamParser.Proofs.Located

/-!
# What the bump of a mismatch changes

To report a mismatch a column past its place is a matter of the one error alone. It reaches no
context, no event and no decision: runs with and without the bump agree in all else, and the errors
they end with differ in their column exactly if `char` raised them before another character.
-/

namespace StreamParser

variable {σ α : Type}

namespace Context

def withBump (c : Context σ) (bump : Bool) : Context σ :=
  c.withOptions { c.options with bumpOnMismatch := bump }

/-- Somewhere in what remains `char` meets another character and fails with this very error, and `t`
has the event that it logs there. -/
def MismatchError (c : Context σ) (t : List Event) (e : LocatedError) : Prop :=
  ∃ x y j, j ≤ c.remaining.length ∧ .mismatch x y (c.advance j).position ∈ t ∧
    Parser.char x (c.advance j) =
      ⟨[.mismatch x y (c.advance j).position], .ok ((c.advance j).failWith (.located e))⟩

variable {c : Context σ} {t : List Event} {e : LocatedError}

theorem mismatchPlace_of_no_bump (h : c.options.bumpOnMismatch = false) :
    c.mismatchPlace = c.position := by
  rw [mismatchPlace, h]
  rfl

theorem Explains.char_eq (h : c.Explains e) {x y : Char} (hc : e.cause = .mismatch (.char x) y) :
    Parser.char x c = ⟨[.mismatch x y c.position], .ok (c.failWith (.located e))⟩ := by
  cases h with
  | charOther hr hne =>
    cases hc
    exact Parser.char_other hr hne
  | _ => cases hc

theorem MismatchError.cause_eq (h : c.MismatchError t e) :
    ∃ x y, e.cause = .mismatch (.char x) y := by
  obtain ⟨x, y, j, -, -, hchar⟩ := h
  rcases hr : (c.advance j).remaining? with _ | _ | ⟨z, rest⟩
  · cases (Context.reading_of_misplaced hr _).symm.trans hchar
  · cases (Parser.char_nil hr x).symm.trans hchar
  · by_cases hz : z = x
    · subst hz
      cases (Parser.char_self hr).symm.trans hchar
    · cases (Parser.char_other hr hz).symm.trans hchar
      exact ⟨x, _, rfl⟩

end Context

namespace Likeness

/-- Contexts without the bump beside the same with it; of the errors, those of a mismatch before
`char` are bumped. -/
def bumped : Likeness σ where
  contexts c d := c.options.bumpOnMismatch = false ∧ d = c.withBump true
  errors e f := ∃ err err', e = .located err ∧ f = .located err' ∧ err'.cause = err.cause ∧
    ((err'.position = err.position.bumpColumn ∧ ∃ x y, err.cause = .mismatch (.char x) y) ∨
      (err'.position = err.position ∧ ∀ x y, err.cause ≠ .mismatch (.char x) y))
  events := Eq
  stray _ := False

theorem bumped_lawful : (bumped : Likeness σ).Lawful where
  remaining?_eq h := by rw [h.2]; rfl
  isEmpty_eq h := by rw [h.2]; rfl
  state_eq h := by rw [h.2]; rfl
  withState h s := ⟨h.1, by rw [h.2]; rfl⟩
  consume h _ := ⟨h.1, by rw [h.2]; rfl⟩
  mismatch h x y := by rw [h.2]; rfl
  fallback h := by rw [h.2]; rfl
  error h cause hc := by
    refine ⟨_, _, rfl, rfl, rfl, .inr ⟨by rw [h.2]; rfl, fun x y hxy => ?_⟩⟩
    have hplain : (Cause.mismatch (.char x) y).isPlain = true := by
      rw [← hxy]
      exact hc
    cases hplain
  errorAtEnd h w := by
    rw [h.2]
    exact ⟨_, _, rfl, rfl, rfl, .inr ⟨rfl, fun x y hxy => by cases hxy⟩⟩
  errorAtMismatch h x y := by
    rw [Context.mismatchPlace_of_no_bump h.1, h.2]
    exact ⟨_, _, rfl, rfl, rfl, .inl ⟨rfl, x, y, rfl⟩⟩

theorem bumped_respectsNesting : (bumped : Likeness σ).RespectsNesting := by
  apply bumped_lawful.respectsNesting
  · intro c d h
    rw [h.2]
    rfl
  · intro c d h
    rw [h.2]
    rfl
  · intro c d l h
    exact ⟨h.1, by rw [h.2]; rfl⟩
  · intro c d h
    rw [h.2]
    rfl

end Likeness

namespace Grammar

variable {ρ : Type} {τ : ρ → Type} {rules : (r : ρ) → Grammar Empty τ σ (τ r)}

variable {g : Grammar Empty τ σ α} {c d : Context σ} {t : List Event} {o : Outcome σ α}
variable {err : LocatedError}

theorem Yields.logs_mismatch (h : Yields rules g c t o) (hbump : c.options.bumpOnMismatch = false)
    {x y : Char} (he : o.error? = some (.located err)) (hc : err.cause = .mismatch (.char x) y) :
    .mismatch x y err.position ∈ t := by
  induction h with
  | charFound | notCharOther | satisfyFound | endFound | just | state | update | skipSpaces
  | charsUntilRun | patternFound | orFirst | pairBoth | manyFailed | manyStayed | manyMoved
  | many1Found | optionalFound | optionalFailed => cases he
  | charEnd | notCharEnd | notCharFound | satisfyEnd | satisfyOther | endOther | noChoice
  | charsUntilEmpty | patternEnd | patternOther | nestedRefused =>
    cases he
    cases hc
  | charOther =>
    cases he
    cases hc
    rw [Context.mismatchPlace_of_no_bump hbump]
    exact List.mem_singleton.mpr rfl
  | orSecond _ _ _ ihb =>
    exact List.mem_append_right _ (List.mem_cons_of_mem _ (ihb hbump he))
  | pairFirst _ iha => exact iha hbump he
  | pairSecond ha _ _ ihb =>
    rw [← ha.reaches.options_eq] at hbump
    exact List.mem_append_right _ (ihb hbump he)
  | andThenFirst _ iha => exact iha hbump he
  | andThenBoth ha _ _ ihb =>
    rw [Outcome.error?_map] at he
    rw [← ha.reaches.options_eq] at hbump
    exact List.mem_append_right _ (ihb hbump he)
  | map _ ih =>
    rw [Outcome.error?_map] at he
    exact ih hbump he
  | many1Failed _ iha => exact iha hbump he
  | nestedAllowed _ _ ih =>
    rw [Outcome.error?_withLevel] at he
    exact ih hbump he
  | ref _ ih => exact ih hbump he

theorem Yields.mismatchError (h : Yields rules g c t (.failure (.located err) d))
    (hbump : c.options.bumpOnMismatch = false) (hc : ∃ x y, err.cause = .mismatch (.char x) y) :
    c.MismatchError t err := by
  obtain ⟨s, k, j, e, -, -, hj, he, hex⟩ := h.locates rfl
  cases he
  obtain ⟨x, y, hxy⟩ := hc
  have hlogged := h.logs_mismatch hbump rfl hxy
  have hplace : err.position = (c.advance j).position := by
    rcases hex.position_eq with hsame | ⟨-, htrue, -⟩
    · exact hsame
    · cases hbump.symm.trans htrue
  rw [hplace] at hlogged
  exact ⟨x, y, j, hj, hlogged, hex.char_eq hxy⟩

/-- With and without the bump a run logs the same, goes the same way and ends in the same context;
the errors have the same cause, and their places differ, by one column, exactly if `char` raised the
error before another character, which is then in the log. -/
theorem run_withBump_agrees (depth : Nat) (g : Grammar Empty τ σ α) (c : Context σ) :
    (run rules depth g (c.withBump true)).trace = (run rules depth g (c.withBump false)).trace ∧
    match (run rules depth g (c.withBump false)).result,
      (run rules depth g (c.withBump true)).result with
    | .ok (.success v d), .ok (.success w d') => w = v ∧ d' = d.withBump true
    | .ok (.failure e d), .ok (.failure f d') => d' = d.withBump true ∧
      ∃ err err', e = .located err ∧ f = .located err' ∧ err'.cause = err.cause ∧
        ((err'.position = err.position.bumpColumn ∧
            (c.withBump false).MismatchError (run rules depth g (c.withBump false)).trace err) ∨
          (err'.position = err.position ∧
            ¬ (c.withBump false).MismatchError (run rules depth g (c.withBump false)).trace err))
    | .error halt, .error halt' => halt' = halt
    | _, _ => False := by
  have hlike := like_run rules Likeness.bumped_lawful Likeness.bumped_respectsNesting depth
    g (c.withBump false) (c.withBump true) ⟨rfl, rfl⟩
  rcases hx : run rules depth g (c.withBump false) with ⟨t, xr⟩
  rcases hy : run rules depth g (c.withBump true) with ⟨u, yr⟩
  rw [hx, hy] at hlike
  rcases hlike with ⟨e, -, hstray⟩ | ⟨htrace, hanswer⟩
  · exact hstray.elim
  · have htu : t = u := List.forall₂_eq_eq_eq ▸ htrace
    refine ⟨htu.symm, ?_⟩
    cases hanswer with
    | error => rfl
    | ok ho =>
      cases ho with
      | success h => exact ⟨rfl, h.2⟩
      | failure he h =>
        obtain ⟨err, err', rfl, rfl, hcause, hplace⟩ := he
        refine ⟨h.2, err, err', rfl, rfl, hcause, ?_⟩
        rcases hplace with ⟨hbump, hmismatch⟩ | ⟨hsame, hother⟩
        · exact .inl ⟨hbump, (yields_of_run hx).mismatchError rfl hmismatch⟩
        · refine .inr ⟨hsame, fun herr => ?_⟩
          obtain ⟨x, y, hxy⟩ := herr.cause_eq
          exact hother x y hxy

end Grammar

end StreamParser
