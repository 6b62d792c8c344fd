import StreamParser.Proofs.Coherence

/-!
# Depth of unfolding

Unfolding the rules deeper changes no run that was not cut short (`run_extends`), and an evaluation
is a run at some depth (`exists_run_of_yields`). So evaluations are exactly the runs that come to an
outcome, and the depth of a run is bookkeeping only.
-/

namespace StreamParser

namespace Run

variable {α β : Type}

/-- The run is not cut short: it comes to an outcome or halts as misplaced. -/
def Ends (x : Run β) : Prop := x.result ≠ .error .unfinished

/-- `y` is the same run as `x`, unless `x` was cut short. -/
def Extends (x y : Run β) : Prop := x.Ends → y = x

theorem Extends.refl (x : Run β) : x.Extends x := fun _ => rfl

theorem Extends.trans {x y z : Run β} (hxy : x.Extends y) (hyz : y.Extends z) : x.Extends z := by
  intro hx
  have hy := hxy hx
  rw [hyz (by rwa [hy]), hy]

theorem Extends.of_unfinished {x : Run β} (h : x.result = .error .unfinished) (y : Run β) :
    x.Extends y := fun hx => absurd h hx

theorem Extends.bind {x y : Run α} {f g : α → Run β} (hxy : x.Extends y)
    (hfg : ∀ a, (f a).Extends (g a)) : (x >>= f).Extends (y >>= g) := by
  intro hx
  obtain ⟨t, h | a⟩ := x
  · have hends : (⟨t, .error h⟩ : Run α).Ends := fun hh => hx (by cases hh; rfl)
    rw [hxy hends]
    rfl
  · have hf : (f a).Ends := hx
    rw [hxy (fun h => by cases h), ok_bind, ok_bind, hfg a hf]

end Run

theorem Context.reading_extends {σ β : Type} (c : Context σ) {f g : List Char → Run β}
    (h : ∀ rest, (f rest).Extends (g rest)) : (c.reading f).Extends (c.reading g) := by
  unfold reading
  cases c.remaining? with
  | none => exact .refl _
  | some rest => exact h rest

namespace Parser

variable {σ α β : Type} {p p' : Parser σ α} {q q' : Parser σ β}

theorem or_extends {q q' : Parser σ α} (hp : ∀ c, (p c).Extends (p' c))
    (hq : ∀ c, (q c).Extends (q' c)) (c : Context σ) : (or p q c).Extends (or p' q' c) := by
  refine .bind (hp c) fun o => ?_
  cases o with
  | success => exact .refl _
  | failure => exact .bind (.refl _) fun _ => hq c

theorem pair_extends (hp : ∀ c, (p c).Extends (p' c)) (hq : ∀ c, (q c).Extends (q' c))
    (c : Context σ) : (pair p q c).Extends (pair p' q' c) := by
  refine .bind (hp c) fun o => ?_
  cases o with
  | success a d => exact .bind (hq d) fun _ => .refl _
  | failure => exact .refl _

theorem andThen_extends (hp : ∀ c, (p c).Extends (p' c)) (hq : ∀ c, (q c).Extends (q' c))
    (c : Context σ) : (andThen p q c).Extends (andThen p' q' c) := by
  refine .bind (hp c) fun o => ?_
  cases o with
  | success a d => exact .bind (hq d) fun _ => .refl _
  | failure => exact .refl _

theorem map_extends (f : α → β) (hp : ∀ c, (p c).Extends (p' c)) (c : Context σ) :
    (map f p c).Extends (map f p' c) := .bind (hp c) fun _ => .refl _

theorem optional_extends (hp : ∀ c, (p c).Extends (p' c)) (c : Context σ) :
    (optional p c).Extends (optional p' c) := .bind (hp c) fun _ => .refl _

theorem nested_extends (hp : ∀ c, (p c).Extends (p' c)) (c : Context σ) :
    (nested p c).Extends (nested p' c) := by
  refine .bind (.refl _) fun r => ?_
  cases r with
  | error => exact .refl _
  | ok inner => exact .bind (hp inner) fun _ => .refl _

theorem repeated_extends (hp : ∀ c, (p c).Extends (p' c)) {n m : Nat} (hnm : n ≤ m)
    (c : Context σ) : (repeated p n c).Extends (repeated p' m c) := by
  induction n generalizing m c with
  | zero =>
    rw [repeated, repeated]
    refine .bind (hp c) fun o => ?_
    cases o with
    | success v d =>
      refine d.reading_extends fun after => c.reading_extends fun before => ?_
      split
      · exact .refl _
      · exact .of_unfinished rfl _
    | failure => exact .refl _
  | succ n ih =>
    obtain ⟨m, rfl⟩ : ∃ k, m = k + 1 := ⟨m - 1, by omega⟩
    rw [repeated, repeated]
    refine .bind (hp c) fun o => ?_
    cases o with
    | success v d =>
      refine d.reading_extends fun after => c.reading_extends fun before => ?_
      split
      · exact .refl _
      · exact .bind (ih (by omega) d) fun _ => .refl _
    | failure => exact .refl _

/-- The first round of a repetition, before the rounds that follow it: these have less left to read. -/
theorem many_of_moves {c d e : Context σ} {t u : List Event} {v : α} {vs : List α}
    (hp : p c = ⟨t, .ok (.success v d)⟩) (hm : c.Moves d)
    (hle : byteSize d.remaining ≤ byteSize c.remaining)
    (hrest : many p d = ⟨u, .ok (.success vs e)⟩) :
    many p c = ⟨t ++ u, .ok (.success (v :: vs) e)⟩ := by
  obtain ⟨ws, e', hrep, ho⟩ := many_eq_ok.mp hrest
  cases ho
  have hlt : byteSize d.remaining < byteSize c.remaining := Nat.lt_of_le_of_ne hle hm.2.2
  obtain ⟨n, hn⟩ : ∃ n, byteSize c.remaining = n + 1 := ⟨byteSize c.remaining - 1, by omega⟩
  have hbound : byteSize d.remaining ≤ n := by omega
  have hrep' : repeated p n d = ⟨u, .ok (vs, e)⟩ := by
    have hext := repeated_extends (fun c => .refl (p c)) hbound d
    rw [hext (by rw [hrep]; exact fun hu => by cases hu), hrep]
  refine many_eq_ok.mpr ⟨v :: vs, e, ?_, rfl⟩
  rw [hn]
  exact repeated_eq_ok.mpr (.inr (.inr ⟨v, d, n, vs, t, u, hp, hm, rfl, hrep', rfl, rfl⟩))

theorem many_of_consume {c e : Context σ} {t u : List Event} {v : α} {vs : List α}
    {taken rest : List Char} (h : c.remaining? = some (taken ++ rest)) (hne : taken ≠ [])
    (hp : p c = ⟨t, .ok (.success v (c.consume taken))⟩)
    (hrest : many p (c.consume taken) = ⟨u, .ok (.success vs e)⟩) :
    many p c = ⟨t ++ u, .ok (.success (v :: vs) e)⟩ :=
  many_of_moves hp (.consume h hne) (Nat.le_of_lt (Context.byteSize_consume_lt h hne)) hrest

theorem many_extends (hp : ∀ c, (p c).Extends (p' c)) (c : Context σ) :
    (many p c).Extends (many p' c) :=
  .bind (repeated_extends hp (Nat.le_refl _) c) fun _ => .refl _

theorem many1_extends (hp : ∀ c, (p c).Extends (p' c)) (c : Context σ) :
    (many1 p c).Extends (many1 p' c) := by
  refine .bind (hp c) fun o => ?_
  cases o with
  | success v d => exact .bind (repeated_extends hp (Nat.le_refl _) d) fun _ => .refl _
  | failure => exact .refl _

end Parser

namespace Grammar

variable {ρ : Type} {τ : ρ → Type} {σ α : Type} {rules : (r : ρ) → Grammar Empty τ σ (τ r)}

theorem meaning_extends {env env' : (r : ρ) → Parser σ (τ r)}
    (henv : ∀ r c, (env r c).Extends (env' r c)) (g : Grammar Empty τ σ α) (c : Context σ) :
    (g.meaning env c).Extends (g.meaning env' c) := by
  induction g generalizing c with
  | or a b iha ihb => exact Parser.or_extends iha ihb c
  | pair a b iha ihb => exact Parser.pair_extends iha ihb c
  | andThen a b iha ihb => exact Parser.andThen_extends iha ihb c
  | map f a iha => exact Parser.map_extends f iha c
  | many a iha => exact Parser.many_extends iha c
  | many1 a iha => exact Parser.many1_extends iha c
  | optional a iha => exact Parser.optional_extends iha c
  | nested a iha => exact Parser.nested_extends iha c
  | ref r => exact henv r c
  | foreign licence => exact licence.elim
  | _ => exact .refl _

theorem unfold_extends_succ (depth : Nat) (r : ρ) (c : Context σ) :
    (unfold rules depth r c).Extends (unfold rules (depth + 1) r c) := by
  induction depth generalizing r c with
  | zero => exact .of_unfinished rfl _
  | succ depth ih => exact meaning_extends ih (rules r) c

theorem unfold_extends {depth depth' : Nat} (h : depth ≤ depth') (r : ρ) (c : Context σ) :
    (unfold rules depth r c).Extends (unfold rules depth' r c) := by
  induction h with
  | refl => exact .refl _
  | step _ ih => exact ih.trans (unfold_extends_succ _ r c)

theorem run_extends {depth depth' : Nat} (h : depth ≤ depth') (g : Grammar Empty τ σ α)
    (c : Context σ) : (run rules depth g c).Extends (run rules depth' g c) :=
  meaning_extends (unfold_extends h) g c

variable {g : Grammar Empty τ σ α} {c : Context σ} {t : List Event} {o : Outcome σ α}

theorem run_of_le {depth depth' : Nat} (h : depth ≤ depth') (hr : run rules depth g c = ⟨t, .ok o⟩) :
    run rules depth' g c = ⟨t, .ok o⟩ := by
  have hends : (run rules depth g c).Ends := by
    rw [hr]
    exact fun hu => by cases hu
  rw [run_extends h g c hends, hr]

theorem run_both {β : Type} {b : Grammar Empty τ σ β} {d : Context σ} {u : List Event}
    {o' : Outcome σ β} (ha : ∃ depth, run rules depth g c = ⟨t, .ok o⟩)
    (hb : ∃ depth, run rules depth b d = ⟨u, .ok o'⟩) :
    ∃ depth, run rules depth g c = ⟨t, .ok o⟩ ∧ run rules depth b d = ⟨u, .ok o'⟩ := by
  obtain ⟨m, ha⟩ := ha
  obtain ⟨n, hb⟩ := hb
  exact ⟨max m n, run_of_le (Nat.le_max_left m n) ha, run_of_le (Nat.le_max_right m n) hb⟩

theorem exists_run_of_yields (h : Yields rules g c t o) :
    ∃ depth, run rules depth g c = ⟨t, .ok o⟩ := by
  induction h with
  | charEnd hr => exact ⟨0, Parser.char_nil hr _⟩
  | charFound hr => exact ⟨0, Parser.char_self hr⟩
  | charOther hr hne => exact ⟨0, Parser.char_other hr hne⟩
  | notCharEnd hr => exact ⟨0, Parser.notChar_nil hr _⟩
  | notCharFound hr => exact ⟨0, Parser.notChar_self hr⟩
  | notCharOther hr hne => exact ⟨0, Parser.notChar_other hr hne⟩
  | satisfyEnd hr => exact ⟨0, Parser.satisfy_nil hr⟩
  | satisfyFound hr hp => exact ⟨0, Parser.satisfy_of_true hr hp⟩
  | satisfyOther hr hp => exact ⟨0, Parser.satisfy_of_false hr hp⟩
  | endFound hr => exact ⟨0, Parser.endOfStream_nil hr⟩
  | endOther hr => exact ⟨0, Parser.endOfStream_cons hr⟩
  | noChoice | just | state | update => exact ⟨0, rfl⟩
  | skipSpaces hr => exact ⟨0, Parser.skipSpaces_eq hr⟩
  | charsUntilEmpty hr hw => exact ⟨0, (Parser.charsUntil_eq hr).trans (if_pos hw)⟩
  | charsUntilRun hr hw => exact ⟨0, (Parser.charsUntil_eq hr).trans (if_neg hw)⟩
  | patternEnd he => exact ⟨0, Parser.pattern_of_isEmpty he _⟩
  | patternFound he hr hm => exact ⟨0, Parser.pattern_of_some he hr hm rfl⟩
  | patternOther he hr hm => exact ⟨0, Parser.pattern_of_none he hr hm⟩
  | orFirst _ ih =>
    obtain ⟨depth, ha⟩ := ih
    exact ⟨depth, Parser.or_eq_ok.mpr (.inl ⟨_, _, ha, rfl⟩)⟩
  | orSecond _ _ iha ihb =>
    obtain ⟨depth, ha, hb⟩ := run_both iha ihb
    exact ⟨depth, Parser.or_eq_ok.mpr (.inr ⟨_, _, _, _, ha, hb, rfl⟩)⟩
  | pairFirst _ ih =>
    obtain ⟨depth, ha⟩ := ih
    exact ⟨depth, Parser.pair_eq_ok.mpr (.inl ⟨_, _, ha, rfl⟩)⟩
  | pairSecond _ _ iha ihb =>
    obtain ⟨depth, ha, hb⟩ := run_both iha ihb
    exact ⟨depth, Parser.pair_eq_ok.mpr (.inr ⟨_, _, _, _, ha, rfl, .inl ⟨_, _, hb, rfl⟩⟩)⟩
  | pairBoth _ _ iha ihb =>
    obtain ⟨depth, ha, hb⟩ := run_both iha ihb
    exact ⟨depth, Parser.pair_eq_ok.mpr (.inr ⟨_, _, _, _, ha, rfl, .inr ⟨_, _, hb, rfl⟩⟩)⟩
  | andThenFirst _ ih =>
    obtain ⟨depth, ha⟩ := ih
    exact ⟨depth, Parser.andThen_eq_ok.mpr (.inl ⟨_, _, ha, rfl⟩)⟩
  | andThenBoth _ _ iha ihb =>
    obtain ⟨depth, ha, hb⟩ := run_both iha ihb
    exact ⟨depth, Parser.andThen_eq_ok.mpr (.inr ⟨_, _, _, _, _, ha, hb, rfl, rfl⟩)⟩
  | map _ ih =>
    obtain ⟨depth, ha⟩ := ih
    exact ⟨depth, Parser.map_eq_ok.mpr ⟨_, ha, rfl⟩⟩
  | manyFailed _ ih =>
    obtain ⟨depth, ha⟩ := ih
    exact ⟨depth, Parser.many_of_failure ha⟩
  | manyStayed _ hs ih =>
    obtain ⟨depth, ha⟩ := ih
    exact ⟨depth, Parser.many_eq_ok.mpr ⟨_, _, Parser.repeated_of_stays ha hs _, rfl⟩⟩
  | manyMoved _ hm _ iha ihrest =>
    obtain ⟨depth, ha, hrest⟩ := run_both iha ihrest
    exact ⟨depth, Parser.many_of_moves ha hm (yields_of_run ha).reaches.byteSize_le hrest⟩
  | many1Failed _ ih =>
    obtain ⟨depth, ha⟩ := ih
    exact ⟨depth, Parser.many1_of_failure ha⟩
  | many1Found _ _ iha ihrest =>
    obtain ⟨depth, ha, hrest⟩ := run_both iha ihrest
    exact ⟨depth, Parser.many1_of_success ha hrest⟩
  | optionalFound _ ih =>
    obtain ⟨depth, ha⟩ := ih
    exact ⟨depth, Parser.optional_eq_ok.mpr (.inl ⟨_, _, ha, rfl⟩)⟩
  | optionalFailed _ ih =>
    obtain ⟨depth, ha⟩ := ih
    exact ⟨depth, Parser.optional_eq_ok.mpr (.inr ⟨_, _, ha, rfl⟩)⟩
  | nestedRefused hl => exact ⟨0, Parser.nested_of_limit hl⟩
  | nestedAllowed hl _ ih =>
    obtain ⟨depth, ha⟩ := ih
    exact ⟨depth, Parser.nested_eq_ok.mpr (.inr ⟨hl, _, ha, rfl⟩)⟩
  | ref _ ih =>
    obtain ⟨depth, hr⟩ := ih
    exact ⟨depth + 1, hr⟩

theorem yields_iff : Yields rules g c t o ↔ ∃ depth, run rules depth g c = ⟨t, .ok o⟩ :=
  ⟨exists_run_of_yields, fun ⟨_, h⟩ => yields_of_run h⟩

theorem Yields.unique {u : List Event} {o' : Outcome σ α} (h : Yields rules g c t o)
    (h' : Yields rules g c u o') : t = u ∧ o = o' := by
  obtain ⟨depth, hr, hr'⟩ := run_both (exists_run_of_yields h) (exists_run_of_yields h')
  cases hr.symm.trans hr'
  exact ⟨rfl, rfl⟩

end Grammar

end StreamParser
