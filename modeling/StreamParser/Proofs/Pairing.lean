import StreamParser.Proofs.Combinator

/-!
# Two in a row

Two parsers in a row hand on a failure as it is (`andThen`) or report it where they began (`pair`). The
first way is the better behaved: rows may be regrouped, values may be changed before or behind them, and a
value that is just there is a neutral part. A pair is such a row with its failures reported at the start
(`pair_eq_reportedAt`), and as it does so it forgets where its own parts reported theirs. So pairs may be
regrouped as well, but a neutral part still moves the place of a failure.
-/

namespace StreamParser

namespace Outcome

variable {σ α β γ : Type}

/-- The same outcome, but a failure is reported at `c`. -/
def reportedAt (c : Context σ) : Outcome σ α → Outcome σ α
  | .success v d => .success v d
  | .failure e _ => .failure e c

theorem map_id (o : Outcome σ α) : o.map id = o := by cases o <;> rfl

theorem map_map (f : α → β) (g : β → γ) (o : Outcome σ α) : (o.map f).map g = o.map (g ∘ f) := by
  cases o <;> rfl

theorem reportedAt_map (f : α → β) (c : Context σ) (o : Outcome σ α) :
    (o.map f).reportedAt c = (o.reportedAt c).map f := by
  cases o <;> rfl

theorem map_reportedAt (f : α → β) (c : Context σ) (x : Run (Outcome σ α)) :
    reportedAt c <$> Outcome.map f <$> x = Outcome.map f <$> reportedAt c <$> x := by
  have hcomm : reportedAt c ∘ Outcome.map f = Outcome.map f ∘ reportedAt c :=
    funext fun o => reportedAt_map f c o
  rw [← comp_map, ← comp_map, hcomm]

theorem reportedAt_eq_success {c d : Context σ} {x : Run (Outcome σ α)} {t : List Event} {v : α} :
    reportedAt c <$> x = ⟨t, .ok (.success v d)⟩ ↔ x = ⟨t, .ok (.success v d)⟩ := by
  rw [Run.map_eq]
  constructor
  · intro h
    rcases x with ⟨u, halt | ⟨w, f⟩ | ⟨e, f⟩⟩ <;> cases h
    rfl
  · rintro rfl
    rfl

theorem reportedAt_eq_failure {c d : Context σ} {x : Run (Outcome σ α)} {t : List Event}
    {e : ParseError} :
    reportedAt c <$> x = ⟨t, .ok (.failure e d)⟩ ↔ d = c ∧ ∃ f, x = ⟨t, .ok (.failure e f)⟩ := by
  rw [Run.map_eq]
  constructor
  · intro h
    rcases x with ⟨u, halt | ⟨w, f⟩ | ⟨e', f⟩⟩ <;> cases h
    exact ⟨rfl, f, rfl⟩
  · rintro ⟨rfl, f, rfl⟩
    rfl

@[simp] theorem isSuccess_reportedAt (c : Context σ) (o : Outcome σ α) :
    (o.reportedAt c).isSuccess = o.isSuccess := by
  cases o <;> rfl

end Outcome

namespace Parser

variable {σ α α' β β' γ : Type} {p p' : Parser σ α} {q q' : Parser σ β} {c d : Context σ}
variable {t : List Event}

/-! ### Changes of values -/

theorem map_eq (f : α → β) (p : Parser σ α) (c : Context σ) : map f p c = Outcome.map f <$> p c := by
  rw [map_eq_pure_bind]
  rfl

theorem map_of_halt {h : Halt} (hp : p c = ⟨t, .error h⟩) (f : α → β) : map f p c = ⟨t, .error h⟩ := by
  rw [map_eq, hp]
  rfl

theorem map_of_outcome {o : Outcome σ α} (hp : p c = ⟨t, .ok o⟩) (f : α → β) :
    map f p c = ⟨t, .ok (o.map f)⟩ := map_eq_ok.mpr ⟨o, hp, rfl⟩

theorem map_eq_success {f : α → β} {w : β} :
    map f p c = ⟨t, .ok (.success w d)⟩ ↔ ∃ v, p c = ⟨t, .ok (.success v d)⟩ ∧ f v = w := by
  rw [map_eq_ok]
  constructor
  · rintro ⟨o, ho, heq⟩
    cases o with
    | success v d' =>
      cases heq
      exact ⟨v, ho, rfl⟩
    | failure e d' => cases heq
  · rintro ⟨v, hv, rfl⟩
    exact ⟨.success v d, hv, rfl⟩

theorem map_eq_failure {f : α → β} {e : ParseError} :
    map f p c = ⟨t, .ok (.failure e d)⟩ ↔ p c = ⟨t, .ok (.failure e d)⟩ := by
  rw [map_eq_ok]
  constructor
  · rintro ⟨o, ho, heq⟩
    cases o with
    | success v d' => cases heq
    | failure e' d' =>
      cases heq
      exact ho
  · intro he
    exact ⟨.failure e d, he, rfl⟩

theorem map_congr {f g : α → β} (h : ∀ t v d, p c = ⟨t, .ok (.success v d)⟩ → f v = g v) :
    map f p c = map g p c := by
  rcases hp : p c with ⟨t, halt | ⟨v, d⟩ | ⟨e, d⟩⟩
  · rw [map_of_halt hp, map_of_halt hp]
  · rw [map_of_outcome hp, map_of_outcome hp, Outcome.map_success, Outcome.map_success, h t v d hp]
  · rw [map_of_outcome hp, map_of_outcome hp, Outcome.map_failure, Outcome.map_failure]

theorem map_id (p : Parser σ α) : map id p = p := by
  have hid : Outcome.map (σ := σ) (id : α → α) = id := funext Outcome.map_id
  funext c
  rw [map_eq, hid, id_map]

theorem map_map (f : α → β) (g : β → γ) (p : Parser σ α) : map g (map f p) = map (g ∘ f) p := by
  have hcomp : Outcome.map (σ := σ) (g ∘ f) = Outcome.map g ∘ Outcome.map f :=
    funext fun o => (Outcome.map_map f g o).symm
  funext c
  rw [map_eq, map_eq, map_eq, hcomp, comp_map]

/-! ### Failures handed on -/

theorem andThen_of_halt {h : Halt} (hp : p c = ⟨t, .error h⟩) (q : Parser σ β) :
    andThen p q c = ⟨t, .error h⟩ := by
  rw [andThen, hp, Run.error_bind]

theorem andThen_of_failure {e : ParseError} (hp : p c = ⟨t, .ok (.failure e d)⟩) (q : Parser σ β) :
    andThen p q c = ⟨t, .ok (.failure e d)⟩ :=
  Run.bind_of_pure hp rfl

theorem andThen_of_success {a : α} (hp : p c = ⟨t, .ok (.success a d)⟩) (q : Parser σ β) :
    andThen p q c = ⟨t ++ (q d).trace, (q d).result.map (Outcome.map (a, ·))⟩ := by
  have hrest : map (a, ·) q d = ⟨(q d).trace, (q d).result.map (Outcome.map (a, ·))⟩ := by
    rw [map_eq, Run.map_eq]
  rw [andThen, hp, Run.ok_bind]
  change (⟨t ++ (map (a, ·) q d).trace, (map (a, ·) q d).result⟩ : Run (Outcome σ (α × β))) = _
  rw [hrest]

theorem andThen_map (f : α → α') (g : β → β') (p : Parser σ α) (q : Parser σ β) :
    andThen (map f p) (map g q) = map (Prod.map f g) (andThen p q) := by
  funext c
  rcases hp : p c with ⟨t, h | ⟨a, d⟩ | ⟨e, d⟩⟩
  · rw [andThen_of_halt (map_of_halt hp f), map_of_halt (andThen_of_halt hp q)]
  · rw [andThen_of_success (map_of_outcome hp f), map_eq g, map_eq (Prod.map f g),
      andThen_of_success hp, Run.map_eq, Run.map_eq]
    rcases (q d).result with h | o
    · rfl
    · cases o <;> rfl
  · rw [andThen_of_failure (map_of_outcome hp f), map_of_outcome (andThen_of_failure hp q)]
    rfl

theorem andThen_map_left (f : α → α') (p : Parser σ α) (q : Parser σ β) :
    andThen (map f p) q = map (Prod.map f id) (andThen p q) := by
  rw [← andThen_map, map_id]

theorem andThen_map_right (g : β → β') (p : Parser σ α) (q : Parser σ β) :
    andThen p (map g q) = map (Prod.map id g) (andThen p q) := by
  rw [← andThen_map, map_id]

theorem andThen_assoc (p : Parser σ α) (q : Parser σ β) (r : Parser σ γ) :
    map (fun x => (x.1.1, x.1.2, x.2)) (andThen (andThen p q) r) = andThen p (andThen q r) := by
  funext c
  rcases hp : p c with ⟨t, h | ⟨a, d⟩ | ⟨e, d⟩⟩
  · rw [map_of_halt (andThen_of_halt (andThen_of_halt hp q) r), andThen_of_halt hp]
  · have hpq := andThen_of_success hp q
    rw [andThen_of_success hp]
    rcases hq : q d with ⟨u, h | ⟨b, d'⟩ | ⟨e, d'⟩⟩
    · rw [hq] at hpq
      rw [map_of_halt (andThen_of_halt hpq r), andThen_of_halt hq]
      rfl
    · rw [hq] at hpq
      rw [map_eq, andThen_of_success hpq, andThen_of_success hq, Run.map_eq, List.append_assoc]
      rcases (r d').result with h | o
      · rfl
      · cases o <;> rfl
    · rw [hq] at hpq
      rw [map_of_outcome (andThen_of_failure hpq r), andThen_of_failure hq]
      rfl
  · rw [map_of_outcome (andThen_of_failure (andThen_of_failure hp q) r), andThen_of_failure hp]
    rfl

theorem just_andThen (x : α) (q : Parser σ β) : andThen (just x) q = map (x, ·) q := by
  have hx (c : Context σ) : (just x : Parser σ α) c = ⟨[], .ok (.success x c)⟩ := rfl
  funext c
  rw [andThen_of_success (hx c), map_eq, Run.map_eq]
  rfl

theorem andThen_just (p : Parser σ α) (y : β) : andThen p (just y) = map (·, y) p := by
  funext c
  rcases hp : p c with ⟨t, h | ⟨a, d⟩ | ⟨e, d⟩⟩
  · rw [andThen_of_halt hp, map_of_halt hp]
  · rw [andThen_of_success hp, map_of_outcome hp]
    apply Run.ext
    · exact List.append_nil t
    · rfl
  · rw [andThen_of_failure hp, map_of_outcome hp]
    rfl

/-! ### Failures reported at the start -/

theorem pair_eq_reportedAt (p : Parser σ α) (q : Parser σ β) (c : Context σ) :
    pair p q c = Outcome.reportedAt c <$> andThen p q c := by
  rw [Run.map_eq, pair]
  rcases hp : p c with ⟨t, h | ⟨a, d⟩ | ⟨e, d⟩⟩
  · rw [andThen_of_halt hp]
    rfl
  · rw [andThen_of_success hp, Run.ok_bind]
    rcases hq : q d with ⟨u, h | ⟨b, d'⟩ | ⟨e, d'⟩⟩
    · simp only [hq, Run.error_bind]
      rfl
    · simp only [hq, Run.ok_bind, Run.pure_eq, List.append_nil]
      rfl
    · simp only [hq, Run.ok_bind, Run.pure_eq, List.append_nil]
      rfl
  · rw [andThen_of_failure hp]
    exact Run.bind_of_pure rfl rfl

theorem pair_of_halt {h : Halt} (hp : p c = ⟨t, .error h⟩) (q : Parser σ β) :
    pair p q c = ⟨t, .error h⟩ := by
  rw [pair_eq_reportedAt, andThen_of_halt hp, Run.map_eq]
  rfl

theorem pair_of_failure {e : ParseError} (hp : p c = ⟨t, .ok (.failure e d)⟩) (q : Parser σ β) :
    pair p q c = ⟨t, .ok (.failure e c)⟩ := by
  rw [pair_eq_reportedAt, andThen_of_failure hp, Run.map_eq]
  rfl

theorem pair_of_success {a : α} (hp : p c = ⟨t, .ok (.success a d)⟩) (q : Parser σ β) :
    pair p q c = ⟨t ++ (q d).trace, (q d).result.map fun o => (o.map (a, ·)).reportedAt c⟩ := by
  rw [pair_eq_reportedAt, andThen_of_success hp, Run.map_eq]
  rcases (q d).result with h | o <;> rfl

theorem pair_failure_context {e : ParseError} (h : (pair p q c).result = .ok (.failure e d)) : d = c := by
  have hrun : pair p q c = ⟨(pair p q c).trace, .ok (.failure e d)⟩ := Run.ext rfl h
  rw [pair_eq_reportedAt] at hrun
  exact (Outcome.reportedAt_eq_failure.mp hrun).1

theorem terminated_failure_context {e : ParseError} (h : terminated p q c = ⟨t, .ok (.failure e d)⟩) :
    d = c :=
  pair_failure_context (congrArg Run.result (map_eq_failure.mp h))

theorem pair_reportedAt_left (hp : p' c = Outcome.reportedAt c <$> p c) (q : Parser σ β) :
    pair p' q c = pair p q c := by
  rw [Run.map_eq] at hp
  rcases h : p c with ⟨t, halt | ⟨a, d⟩ | ⟨e, d⟩⟩
  · rw [h] at hp
    rw [pair_of_halt hp, pair_of_halt h]
  · rw [h] at hp
    rw [pair_of_success hp, pair_of_success h]
  · rw [h] at hp
    rw [pair_of_failure hp, pair_of_failure h]

theorem pair_reportedAt_right (p : Parser σ α) (hq : ∀ d, q' d = Outcome.reportedAt d <$> q d) :
    pair p q' = pair p q := by
  funext c
  rcases h : p c with ⟨t, halt | ⟨a, d⟩ | ⟨e, d⟩⟩
  · rw [pair_of_halt h, pair_of_halt h]
  · rw [pair_of_success h, pair_of_success h, hq, Run.map_eq]
    rcases (q d).result with halt | o
    · rfl
    · cases o <;> rfl
  · rw [pair_of_failure h, pair_of_failure h]

theorem pair_map (f : α → α') (g : β → β') (p : Parser σ α) (q : Parser σ β) :
    pair (map f p) (map g q) = map (Prod.map f g) (pair p q) := by
  funext c
  rw [pair_eq_reportedAt, andThen_map, map_eq, map_eq, pair_eq_reportedAt, Outcome.map_reportedAt]

theorem pair_map_left (f : α → α') (p : Parser σ α) (q : Parser σ β) :
    pair (map f p) q = map (Prod.map f id) (pair p q) := by
  rw [← pair_map, map_id]

theorem pair_map_right (g : β → β') (p : Parser σ α) (q : Parser σ β) :
    pair p (map g q) = map (Prod.map id g) (pair p q) := by
  rw [← pair_map, map_id]

theorem pair_assoc (p : Parser σ α) (q : Parser σ β) (r : Parser σ γ) :
    map (fun x => (x.1.1, x.1.2, x.2)) (pair (pair p q) r) = pair p (pair q r) := by
  funext c
  -- Both sides report at `c`, so the inner pairs may as well hand their failures on.
  let regrouped (x : (α × β) × γ) : α × β × γ := (x.1.1, x.1.2, x.2)
  calc map regrouped (pair (pair p q) r) c
    _ = map regrouped (pair (andThen p q) r) c := by
      rw [map_eq, map_eq, pair_reportedAt_left (pair_eq_reportedAt p q c)]
    _ = Outcome.reportedAt c <$> map regrouped (andThen (andThen p q) r) c := by
      rw [map_eq, map_eq, pair_eq_reportedAt, Outcome.map_reportedAt]
    _ = pair p (andThen q r) c := by
      rw [andThen_assoc, pair_eq_reportedAt]
    _ = pair p (pair q r) c := by
      rw [pair_reportedAt_right p (pair_eq_reportedAt q r)]

theorem just_pair (x : α) (q : Parser σ β) (c : Context σ) :
    pair (just x) q c = Outcome.reportedAt c <$> map (x, ·) q c := by
  rw [pair_eq_reportedAt, just_andThen]

theorem pair_just (p : Parser σ α) (y : β) (c : Context σ) :
    pair p (just y) c = Outcome.reportedAt c <$> map (·, y) p c := by
  rw [pair_eq_reportedAt, andThen_just]

end Parser

end StreamParser
