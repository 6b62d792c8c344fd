import Mathlib.Logic.ExistsUnique
import StreamParser.Proofs.Halting

/-!
# Repetition as a chain of matches

A chain is made of matches each of which leaves less to read. From a context there is one chain that
cannot go on (`Chain.eq_of_stops`), and `many` takes exactly this one: its values are those of the chain,
its context is the last one, and what is found there without progress is dropped. `many1` takes the first
match whether it progresses or not, and from there on does as `many` does.
-/

namespace StreamParser

namespace Parser

variable {σ α : Type} {p : Parser σ α} {c d e : Context σ} {t u : List Event} {v : α}
variable {ms ns : List (α × Context σ)}

def Progresses (p : Parser σ α) (c : Context σ) (t : List Event) (v : α) (d : Context σ) : Prop :=
  p c = ⟨t, .ok (.success v d)⟩ ∧ d.remaining.length < c.remaining.length

/-- `p` fails, or it finds something that leaves no less to read. -/
def Stops (p : Parser σ α) (c : Context σ) : Prop :=
  (∃ t err d, p c = ⟨t, .ok (.failure err d)⟩) ∨
    ∃ t v d, p c = ⟨t, .ok (.success v d)⟩ ∧ c.remaining.length ≤ d.remaining.length

/-- Matches that progress, each where the one before has come to: the values, each with the context that
it leads to. The last of these contexts is where the chain ends, or the first one if there is no match. -/
inductive Chain (p : Parser σ α) :
    Context σ → List Event → List (α × Context σ) → Context σ → Prop where
  | nil (c : Context σ) : Chain p c [] [] c
  | cons {c d e : Context σ} {t u : List Event} {v : α} {ms : List (α × Context σ)}
      (hv : p.Progresses c t v d) (hms : Chain p d u ms e) : Chain p c (t ++ u) ((v, d) :: ms) e

theorem stops_or_progresses {o : Outcome σ α} (ho : p c = ⟨t, .ok o⟩) :
    p.Stops c ∨ ∃ v d, p.Progresses c t v d := by
  cases o with
  | failure err d => exact .inl (.inl ⟨t, err, d, ho⟩)
  | success v d =>
    by_cases hlt : d.remaining.length < c.remaining.length
    · exact .inr ⟨v, d, ho, hlt⟩
    · exact .inl (.inr ⟨t, v, d, ho, Nat.le_of_not_lt hlt⟩)

theorem Stops.not_progresses (h : p.Stops c) : ¬ p.Progresses c t v d := by
  rintro ⟨hv, hlt⟩
  rcases h with ⟨t', err, d', hf⟩ | ⟨t', v', d', hv', hle⟩
  · cases hf.symm.trans hv
  · cases hv'.symm.trans hv
    omega

namespace Chain

theorem eq_of_stops (h : p.Chain c t ms d) (hd : p.Stops d) (h' : p.Chain c u ns e) (he : p.Stops e) :
    ms = ns := by
  induction h generalizing u ns with
  | nil c =>
    cases h' with
    | nil => rfl
    | cons hv _ => exact absurd hv hd.not_progresses
  | cons hv _ ih =>
    cases h' with
    | nil => exact absurd hv he.not_progresses
    | cons hv' hns =>
      cases hv.1.symm.trans hv'.1
      rw [ih hd hns]

theorem length_add_le (h : p.Chain c t ms d) : ms.length + d.remaining.length ≤ c.remaining.length := by
  induction h with
  | nil c => exact Nat.le_of_eq (Nat.zero_add _)
  | cons hv _ ih =>
    have hlt := hv.2
    rw [List.length_cons]
    omega

end Chain

/-- Wherever a chain leads from `c`, `p` comes to an outcome, and what a match leaves there is a last part
of what was to be read. -/
structure Proceeds (p : Parser σ α) (c : Context σ) : Prop where
  answers {t : List Event} {ms : List (α × Context σ)} {d : Context σ} (h : p.Chain c t ms d) :
    ∃ u o, p d = ⟨u, .ok o⟩
  suffix {t u : List Event} {ms : List (α × Context σ)} {v : α} {d e : Context σ}
    (h : p.Chain c t ms d) (hv : p d = ⟨u, .ok (.success v e)⟩) :
    d.Placed ∧ e.Placed ∧ e.remaining <:+ d.remaining

namespace Proceeds

theorem next (h : p.Proceeds c) (hv : p.Progresses c t v d) : p.Proceeds d where
  answers hms := h.answers (.cons hv hms)
  suffix hms hw := h.suffix (.cons hv hms) hw

theorem of_chain (h : p.Proceeds c) (hms : p.Chain c t ms d) : p.Proceeds d := by
  induction hms with
  | nil c => exact h
  | cons hv _ ih => exact ih (h.next hv)

theorem of_outcome {o : Outcome σ α} (ho : p c = ⟨t, .ok o⟩)
    (hsuffix : ∀ v d, o = .success v d → c.Placed ∧ d.Placed ∧ d.remaining <:+ c.remaining)
    (hnext : ∀ v d, o = .success v d → d.remaining.length < c.remaining.length → p.Proceeds d) :
    p.Proceeds c where
  answers hms := by
    cases hms with
    | nil => exact ⟨t, o, ho⟩
    | cons hv hms =>
      cases ho.symm.trans hv.1
      exact (hnext _ _ rfl hv.2).answers hms
  suffix hms hw := by
    cases hms with
    | nil =>
      cases ho.symm.trans hw
      exact hsuffix _ _ rfl
    | cons hv hms =>
      cases ho.symm.trans hv.1
      exact (hnext _ _ rfl hv.2).suffix hms hw

theorem of_total (htotal : ∀ c : Context σ, c.Placed → ∃ t o, p c = ⟨t, .ok o⟩)
    (hsuffix : ∀ {c t v d}, c.Placed → p c = ⟨t, .ok (.success v d)⟩ →
      d.Placed ∧ d.remaining <:+ c.remaining) (hc : c.Placed) : p.Proceeds c := by
  induction hn : c.remaining.length using Nat.strongRecOn generalizing c with
  | ind n ih =>
    obtain ⟨t, o, ho⟩ := htotal c hc
    apply of_outcome ho
    · rintro v d rfl
      exact ⟨hc, hsuffix hc ho⟩
    · rintro v d rfl hlt
      apply ih d.remaining.length (by omega) (hsuffix hc ho).1 rfl

theorem exists_chain (h : p.Proceeds c) : ∃ t ms d, p.Chain c t ms d ∧ p.Stops d := by
  -- A chain that is followed as far as it goes ends, since less and less remains.
  induction hn : c.remaining.length using Nat.strongRecOn generalizing c with
  | ind n ih =>
    obtain ⟨t, o, ho⟩ := h.answers (.nil c)
    rcases stops_or_progresses ho with hs | ⟨v, d, hv⟩
    · exact ⟨[], [], c, .nil c, hs⟩
    · have hlt : d.remaining.length < n := hn ▸ hv.2
      obtain ⟨u, ms, e, hms, he⟩ := ih _ hlt (h.next hv) rfl
      exact ⟨t ++ u, (v, d) :: ms, e, .cons hv hms, he⟩

theorem many_of_stops (h : p.Proceeds c) (hs : p.Stops c) :
    many p c = ⟨(p c).trace, .ok (.success [] c)⟩ := by
  apply many_eq_ok.mpr
  refine ⟨[], c, ?_, rfl⟩
  rcases hs with ⟨t, err, d, hf⟩ | ⟨t, v, d, hv, hle⟩
  · rw [hf]
    exact repeated_of_failure hf _
  · obtain ⟨hc, hd, hsuffix⟩ := h.suffix (.nil c) hv
    have hsame : d.remaining = c.remaining := hsuffix.eq_of_length_le hle
    rw [hv]
    exact repeated_of_stays hv ⟨hc, hd, by rw [hsame]⟩ _

theorem many_of_progresses (h : p.Proceeds c) (hv : p.Progresses c t v d) {vs : List α}
    (hrest : many p d = ⟨u, .ok (.success vs e)⟩) :
    many p c = ⟨t ++ u, .ok (.success (v :: vs) e)⟩ := by
  obtain ⟨hc, hd, hsuffix⟩ := h.suffix (.nil c) hv.1
  have hlt := byteSize_lt_of_suffix hsuffix hv.2
  exact many_of_moves hv.1 ⟨hc, hd, Nat.ne_of_lt hlt⟩ (Nat.le_of_lt hlt) hrest

theorem many_of_chain (h : p.Proceeds c) (hms : p.Chain c t ms d) (hd : p.Stops d) :
    many p c = ⟨t ++ (p d).trace, .ok (.success (ms.map Prod.fst) d)⟩ := by
  induction hms with
  | nil c => exact h.many_of_stops hd
  | cons hv _ ih =>
    rw [List.append_assoc]
    exact h.many_of_progresses hv (ih (h.next hv) hd)

theorem exists_many (h : p.Proceeds c) : ∃ t vs d, many p c = ⟨t, .ok (.success vs d)⟩ := by
  obtain ⟨t, ms, d, hms, hd⟩ := h.exists_chain
  exact ⟨t ++ (p d).trace, ms.map Prod.fst, d, h.many_of_chain hms hd⟩

end Proceeds

/-- There is exactly one chain of progressing matches that cannot go on, and `many` takes it. What is found
where it ends is dropped, and a second repetition finds nothing there. -/
theorem many_eq_maximal_chain (h : p.Proceeds c) :
    (∃! ms, ∃ t d, p.Chain c t ms d ∧ p.Stops d) ∧
    ∃ t ms d, p.Chain c t ms d ∧ p.Stops d ∧ ms.length ≤ c.remaining.length ∧
      many p c = ⟨t ++ (p d).trace, .ok (.success (ms.map Prod.fst) d)⟩ ∧
      many p d = ⟨(p d).trace, .ok (.success [] d)⟩ := by
  obtain ⟨t, ms, d, hms, hd⟩ := h.exists_chain
  have hlength : ms.length ≤ c.remaining.length := by
    have hle := hms.length_add_le
    omega
  refine ⟨⟨ms, ⟨t, d, hms, hd⟩, ?_⟩, t, ms, d, hms, hd, hlength, h.many_of_chain hms hd,
    (h.of_chain hms).many_of_stops hd⟩
  rintro ns ⟨u, e, hns, he⟩
  exact hns.eq_of_stops he hms hd

/-- Takes an `a` in the state `true`; where there is none, and in the state `false`, it turns the state
around and reads nothing. -/
def dozing : Parser Bool Char :=
  or (fun c => if c.state then char 'a' c else return c.fail .noAlternative)
    (map (fun _ => '-') (update not))

theorem dozing_reaches {c : Context Bool} (hc : c.Placed) :
    ∃ t v d, dozing c = ⟨t, .ok (.success v d)⟩ ∧ c.Reaches d := by
  have turned : map (fun _ => '-') (update not) c =
    ⟨[], .ok (.success '-' (c.withState (!c.state)))⟩ := rfl
  have first : ∃ t o, (if c.state then char 'a' c else return c.fail .noAlternative) = ⟨t, .ok o⟩ ∧
      c.Reaches o.context := by
    cases c.state with
    | false => exact ⟨_, _, rfl, .refl c⟩
    | true =>
      have hsettles : Grammar.Settles Grammar.parens (.char 'a') c (char 'a' c) :=
        Grammar.settles_char 'a'
      rcases hsettles with ⟨hr, -⟩ | ⟨t, o, ho, hy⟩
      · exact absurd hc (Context.not_placed_iff.mpr hr)
      · exact ⟨t, o, ho, hy.reaches⟩
  obtain ⟨t, o, ho, hreaches⟩ := first
  cases o with
  | success v d => exact ⟨t, v, d, or_eq_ok.mpr (.inl ⟨v, d, ho, rfl⟩), hreaches⟩
  | failure e d =>
    exact ⟨_, _, _, or_eq_ok.mpr (.inr ⟨e, d, t, [], ho, turned, rfl⟩), .withState c _⟩

theorem dozing_proceeds {c : Context Bool} (hc : c.Placed) : dozing.Proceeds c := by
  apply Proceeds.of_total
  · intro d hd
    obtain ⟨t, v, e, hv, -⟩ := dozing_reaches hd
    exact ⟨t, _, hv⟩
  · intro d t v e hd hv
    obtain ⟨t', v', e', hv', hreaches⟩ := dozing_reaches hd
    cases hv.symm.trans hv'
    exact ⟨hreaches.placed hd, hreaches.remaining_suffix⟩
  · exact hc

/-- At the end of the letters it would doze off, but that is undone. -/
theorem many_dozing_eq_maximal_chain :
    let c := Context.start ['a', 'a', 'b'] true
    dozing.Proceeds c ∧ ∃ t ms d, dozing.Chain c t ms d ∧ dozing.Stops d ∧
      ms.map Prod.fst = ['a', 'a'] ∧ d.state = true ∧ d.remaining = ['b'] ∧
      many dozing c = ⟨t ++ (dozing d).trace, .ok (.success (ms.map Prod.fst) d)⟩ := by
  intro c
  have hc : dozing.Proceeds c := dozing_proceeds (by decide)
  obtain ⟨-, t, ms, d, hms, hd, -, hmany, -⟩ := many_eq_maximal_chain hc
  have ran : (many dozing c).result.toOption.map (fun o => (o.value?, o.context.state, o.context.remaining)) =
    some (some ['a', 'a'], true, ['b']) := by decide +kernel
  rw [hmany] at ran
  simp only [Except.toOption, Option.map_some, Outcome.value?, Outcome.context, Option.some.injEq,
    Prod.mk.injEq] at ran
  exact ⟨hc, t, ms, d, hms, hd, ran.1, ran.2.1, ran.2.2, hmany⟩

/-- `many1` hands on a first failure, and otherwise it puts the first match, be it without progress, before
what `many` finds behind it. Where the first match progresses both do the same; elsewhere `many` finds
nothing. -/
theorem many1_agrees_with_many (h : p.Proceeds c)
    (hfirst : ∀ {t v d}, p c = ⟨t, .ok (.success v d)⟩ → p.Proceeds d) :
    (∀ {t err d}, p c = ⟨t, .ok (.failure err d)⟩ → many1 p c = ⟨t, .ok (.failure err d)⟩) ∧
    (∀ {t v d}, p c = ⟨t, .ok (.success v d)⟩ → ∃ u vs e, many p d = ⟨u, .ok (.success vs e)⟩ ∧
      many1 p c = ⟨t ++ u, .ok (.success (v :: vs) e)⟩) ∧
    (∀ {t v d}, p.Progresses c t v d → many p c = many1 p c) ∧
    (p.Stops c → many p c = ⟨(p c).trace, .ok (.success [] c)⟩) := by
  have hmany1 {t v d} (hv : p c = ⟨t, .ok (.success v d)⟩) : ∃ u vs e,
      many p d = ⟨u, .ok (.success vs e)⟩ ∧ many1 p c = ⟨t ++ u, .ok (.success (v :: vs) e)⟩ := by
    obtain ⟨u, vs, e, hrest⟩ := (hfirst hv).exists_many
    obtain ⟨vs, e, hrep, ⟨⟩⟩ := many_eq_ok.mp hrest
    exact ⟨u, vs, e, hrest, many1_eq_ok.mpr (.inr ⟨t, v, d, u, vs, e, hv, hrep, rfl, rfl⟩)⟩
  refine ⟨fun hf => many1_eq_ok.mpr (.inl ⟨_, _, hf, rfl⟩), hmany1, fun hv => ?_, h.many_of_stops⟩
  obtain ⟨u, vs, e, hrest, hall⟩ := hmany1 hv.1
  rw [hall]
  exact h.many_of_progresses hv hrest

/-- Beginning in its sleep it wakes up without reading anything, which is the first match of the one and the
end of the other. -/
theorem many1_dozing_agrees_with_many :
    let c := Context.start ['a', 'a', 'b'] false
    dozing.Proceeds c ∧ dozing.Proceeds (c.withState true) ∧ dozing.Stops c ∧
    many dozing c = ⟨(dozing c).trace, .ok (.success [] c)⟩ ∧
    ∃ u vs e, many dozing (c.withState true) = ⟨u, .ok (.success vs e)⟩ ∧
      many1 dozing c = ⟨(dozing c).trace ++ u, .ok (.success ('-' :: vs) e)⟩ ∧ vs = ['a', 'a'] := by
  intro c
  have woken : dozing c = ⟨(dozing c).trace, .ok (.success '-' (c.withState true))⟩ := rfl
  have hc : dozing.Proceeds c := dozing_proceeds (by decide)
  have hd : dozing.Proceeds (c.withState true) := dozing_proceeds (by decide)
  have stops : dozing.Stops c := .inr ⟨_, _, _, woken, Nat.le_refl _⟩
  obtain ⟨-, hfound, -, hnothing⟩ := many1_agrees_with_many hc fun hv => by
    cases woken.symm.trans hv
    exact hd
  obtain ⟨u, vs, e, hmany, hmany1⟩ := hfound woken
  have ran : (many dozing (c.withState true)).result.toOption.map Outcome.value? =
    some (some ['a', 'a']) := by decide +kernel
  rw [hmany] at ran
  simp only [Except.toOption, Option.map_some, Outcome.value?, Option.some.injEq] at ran
  exact ⟨hc, hd, stops, hnothing stops, u, vs, e, hmany, hmany1, ran⟩

end Parser

namespace Grammar

variable {ρ : Type} {τ : ρ → Type} {σ α : Type} {rules : (r : ρ) → Grammar Empty τ σ (τ r)}

theorem exists_proceeds {g : Grammar Empty τ σ α} {c : Context σ} (hc : c.Placed)
    (hg : ∀ d, c.Reaches d → ∃ depth t o, run rules depth g d = ⟨t, .ok o⟩) :
    ∃ depth₀, ∀ depth ≥ depth₀, (run rules depth g).Proceeds c := by
  induction hn : c.remaining.length using Nat.strongRecOn generalizing c with
  | ind n ih =>
    obtain ⟨m, t, o, ho⟩ := hg c (.refl c)
    have hnext : ∃ k, ∀ depth ≥ k, ∀ v d, o = .success v d →
        d.remaining.length < c.remaining.length → (run rules depth g).Proceeds d := by
      cases o with
      | failure e d =>
        refine ⟨0, ?_⟩
        rintro depth - v d ⟨⟩
      | success v d =>
        have hd : c.Reaches d := run_forward m g ho
        by_cases hlt : d.remaining.length < c.remaining.length
        · obtain ⟨k, hk⟩ := ih _ (hn ▸ hlt) (hd.placed hc) (fun e he => hg e (hd.trans he)) rfl
          refine ⟨k, ?_⟩
          rintro depth hdepth v d ⟨⟩ -
          exact hk depth hdepth
        · refine ⟨0, ?_⟩
          rintro depth - v d ⟨⟩ hlt'
          exact absurd hlt' hlt
    obtain ⟨k, hk⟩ := hnext
    refine ⟨max m k, fun depth hdepth => ?_⟩
    have hrun := run_of_le (Nat.le_trans (Nat.le_max_left m k) hdepth) ho
    apply Parser.Proceeds.of_outcome hrun
    · rintro v d rfl
      have hd : c.Reaches d := run_forward depth g hrun
      exact ⟨hc, hd.placed hc, hd.remaining_suffix⟩
    · exact hk depth (Nat.le_trans (Nat.le_max_right m k) hdepth)

end Grammar

end StreamParser
