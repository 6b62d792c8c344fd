import StreamParser.Proofs.Alternatives
import StreamParser.Proofs.Pairing

/-!
# A part between two others

What stands between two parts is found by a row of all three, in which the outer values are dropped. As pairs
such a row reports every failure at its start. `between` does not go back behind its first part: that part
hands on its own failure, and a failure of the others is reported where it ended. What the middle part has
read and changed is undone in both forms if the last part fails.
-/

namespace StreamParser

namespace Parser

variable {σ α β γ : Type} {p left : Parser σ α} {q : Parser σ β} {c d f : Context σ} {t u : List Event}
variable {e : ParseError}

/-! ### Parts that come to an outcome -/

theorem map_answers (hp : p.Answers c) (g : α → β) : (map g p).Answers c := by
  obtain ⟨t, o, ho⟩ := hp
  exact ⟨t, o.map g, map_of_outcome ho g⟩

theorem andThen_answers (hp : p.Answers c)
    (hq : ∀ t a d, p c = ⟨t, .ok (.success a d)⟩ → q.Answers d) : (andThen p q).Answers c := by
  obtain ⟨t, ⟨a, d⟩ | ⟨e, d⟩, ho⟩ := hp
  · obtain ⟨u, o, ho'⟩ := hq t a d ho
    exact ⟨t ++ u, o.map (a, ·), andThen_eq_ok.mpr (.inr ⟨t, a, d, u, o, ho, ho', rfl, rfl⟩)⟩
  · exact ⟨t, .failure e d, andThen_of_failure ho q⟩

theorem pair_answers (hp : p.Answers c)
    (hq : ∀ t a d, p c = ⟨t, .ok (.success a d)⟩ → q.Answers d) : (pair p q).Answers c := by
  obtain ⟨t, o, ho⟩ := andThen_answers hp hq
  refine ⟨t, o.reportedAt c, ?_⟩
  rw [pair_eq_reportedAt, ho, Run.map_eq]
  rfl

theorem between_answers {middle : Parser σ β} {right : Parser σ γ} (hleft : left.Answers c)
    (hmiddle : ∀ t a d, left c = ⟨t, .ok (.success a d)⟩ → middle.Answers d)
    (hright : ∀ t a d u b f, left c = ⟨t, .ok (.success a d)⟩ → middle d = ⟨u, .ok (.success b f)⟩ →
      right.Answers f) : (between left middle right).Answers c := by
  apply map_answers
  apply andThen_answers hleft
  intro t a d ha
  apply map_answers
  apply pair_answers (hmiddle t a d ha)
  intro u b f hb
  exact hright t a d u b f ha hb

/-! ### The two forms -/

theorem preceded_terminated_eq_reportedAt (left : Parser σ α) (middle : Parser σ β)
    (right : Parser σ γ) (c : Context σ) :
    preceded left (terminated middle right) c = Outcome.reportedAt c <$> between left middle right c := by
  rw [preceded, between, map_eq, map_eq, pair_eq_reportedAt, Outcome.map_reportedAt]

theorem between_of_left_failure (hleft : left c = ⟨t, .ok (.failure e d)⟩) (middle : Parser σ β)
    (right : Parser σ γ) : between left middle right c = ⟨t, .ok (.failure e d)⟩ :=
  between_eq_ok.mpr (.inl ⟨e, d, hleft, rfl⟩)

theorem between_failure_context {middle : Parser σ β} {right : Parser σ γ} {a : α}
    (hleft : left c = ⟨t, .ok (.success a d)⟩)
    (h : between left middle right c = ⟨u, .ok (.failure e f)⟩) : f = d := by
  rcases between_eq_ok.mp h with ⟨e', d', hl, -⟩ | ⟨t', a', d', u', hl, hinner, -⟩
  · cases hl.symm.trans hleft
  · cases hl.symm.trans hleft
    exact terminated_failure_context hinner

/-- The runs are the same, with one answer where the parts have one, but for where a failure is reported: at
the start by the pairs, and by `between` where the first part reports its own, or else where it ended. -/
theorem between_agrees_with_preceded (left : Parser σ α) (middle : Parser σ β) (right : Parser σ γ)
    (c : Context σ) :
    preceded left (terminated middle right) c = Outcome.reportedAt c <$> between left middle right c ∧
    (∀ t e d, left c = ⟨t, .ok (.failure e d)⟩ →
      between left middle right c = ⟨t, .ok (.failure e d)⟩) ∧
    (∀ t a d, left c = ⟨t, .ok (.success a d)⟩ →
      ∀ u e f, between left middle right c = ⟨u, .ok (.failure e f)⟩ → f = d) ∧
    (left.Answers c → (∀ t a d, left c = ⟨t, .ok (.success a d)⟩ → middle.Answers d) →
      (∀ t a d u b f, left c = ⟨t, .ok (.success a d)⟩ → middle d = ⟨u, .ok (.success b f)⟩ →
        right.Answers f) →
      ∃ t o, between left middle right c = ⟨t, .ok o⟩ ∧
        preceded left (terminated middle right) c = ⟨t, .ok (o.reportedAt c)⟩) := by
  have hreported := preceded_terminated_eq_reportedAt left middle right c
  refine ⟨hreported, ?_, ?_, ?_⟩
  · intro t e d hleft
    exact between_of_left_failure hleft middle right
  · intro t a d hleft u e f hfails
    exact between_failure_context hleft hfails
  · intro hleft hmiddle hright
    obtain ⟨t, o, ho⟩ := between_answers hleft hmiddle hright
    rw [ho, Run.map_eq] at hreported
    exact ⟨t, o, ho, hreported⟩

/-- The middle part has read a letter and multiplied the state before the last part fails. Neither is left,
but what the first part has read and added is left by `between`. -/
theorem between_undoes_middle :
    let left : Parser Nat Char := terminated (char '(') (update (· + 1))
    let middle : Parser Nat Char := terminated (char 'x') (update (· * 10))
    let c := Context.start ['(', 'x', 'y'] 1
    let d := (c.advance 1).withState 2
    left c = ⟨[], .ok (.success '(' d)⟩ ∧
    middle d = ⟨[], .ok (.success 'x' ((c.advance 2).withState 20))⟩ ∧
    ∃ t e, between left middle (char ')') c = ⟨t, .ok (.failure e d)⟩ ∧
      preceded left (terminated middle (char ')')) c = ⟨t, .ok (.failure e c)⟩ := by
  intro left middle c d
  have hleft : left c = ⟨[], .ok (.success '(' d)⟩ := rfl
  have failed : between left middle (char ')') c = ⟨_, .ok (.failure _ _)⟩ := rfl
  obtain ⟨hsame, -, hplace, -⟩ := between_agrees_with_preceded left middle (char ')') c
  have hd := hplace _ _ _ hleft _ _ _ failed
  rw [failed, Run.map_eq] at hsame
  rw [hd] at failed
  exact ⟨hleft, rfl, _, _, failed, hsame⟩

end Parser

end StreamParser
