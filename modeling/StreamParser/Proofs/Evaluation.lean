import StreamParser.Grammar
import StreamParser.Proofs.Combinator

/-!
# Evaluation of grammars

`Yields rules g c t o` says that `g`, run on `c`, logs `t` and comes to `o`. It has one rule for each
way a library parser can take and no bound on recursion. Every run that comes to an outcome is an
evaluation (`yields_of_run`), so what holds of all evaluations holds of all runs at all depths.
-/

namespace StreamParser

namespace Grammar

variable {ρ : Type} {τ : ρ → Type} {σ α β : Type}

inductive Yields (rules : (r : ρ) → Grammar Empty τ σ (τ r)) :
    {α : Type} → Grammar Empty τ σ α → Context σ → List Event → Outcome σ α → Prop where
  | charEnd {x : Char} {c : Context σ} (hr : c.remaining? = some []) :
      Yields rules (.char x) c [] (c.fail (.endReached (.char x) c.position.stream))
  | charFound {x : Char} {c : Context σ} {rest : List Char} (hr : c.remaining? = some (x :: rest)) :
      Yields rules (.char x) c [] (.success x (c.consume [x]))
  | charOther {x y : Char} {c : Context σ} {rest : List Char}
      (hr : c.remaining? = some (y :: rest)) (hne : y ≠ x) :
      Yields rules (.char x) c [.mismatch x y c.position] (c.failMismatch x y)
  | notCharEnd {x : Char} {c : Context σ} (hr : c.remaining? = some []) :
      Yields rules (.notChar x) c [] (c.fail (.endReached (.char x) c.position.stream))
  | notCharFound {x : Char} {c : Context σ} {rest : List Char}
      (hr : c.remaining? = some (x :: rest)) :
      Yields rules (.notChar x) c [] (c.fail (.excluded x x))
  | notCharOther {x y : Char} {c : Context σ} {rest : List Char}
      (hr : c.remaining? = some (y :: rest)) (hne : y ≠ x) :
      Yields rules (.notChar x) c [.mismatch x y c.position] (.success y (c.consume [y]))
  | satisfyEnd {label : String} {p : Char → Bool} {c : Context σ} (hr : c.remaining? = some []) :
      Yields rules (.satisfy label p) c [] (c.fail (.endReached (.label label) c.position.stream))
  | satisfyFound {label : String} {p : Char → Bool} {y : Char} {c : Context σ} {rest : List Char}
      (hr : c.remaining? = some (y :: rest)) (hp : p y = true) :
      Yields rules (.satisfy label p) c [] (.success y (c.consume [y]))
  | satisfyOther {label : String} {p : Char → Bool} {y : Char} {c : Context σ} {rest : List Char}
      (hr : c.remaining? = some (y :: rest)) (hp : p y = false) :
      Yields rules (.satisfy label p) c [] (c.fail (.mismatch (.label label) y))
  | endFound {c : Context σ} (hr : c.remaining? = some []) :
      Yields rules .endOfStream c [] (c.succeed ())
  | endOther {y : Char} {c : Context σ} {rest : List Char} (hr : c.remaining? = some (y :: rest)) :
      Yields rules .endOfStream c [] (c.fail (.mismatch .endOfStream y))
  | noChoice {α : Type} {c : Context σ} :
      Yields rules (.noChoice : Grammar Empty τ σ α) c [] (c.fail .noAlternative)
  | just {α : Type} {v : α} {c : Context σ} : Yields rules (.just v) c [] (c.succeed v)
  | state {c : Context σ} : Yields rules .state c [] (c.succeed c.state)
  | update {f : σ → σ} {c : Context σ} :
      Yields rules (.update f) c [] (.success () (c.withState (f c.state)))
  | skipSpaces {c : Context σ} {rest : List Char} (hr : c.remaining? = some rest) :
      Yields rules .skipSpaces c [] (.success () (c.consume (rest.takeWhile (· = ' '))))
  | charsUntilEmpty {x : Char} {c : Context σ} {text : List Char} (hr : c.remaining? = some text)
      (hw : Parser.without x text = []) :
      Yields rules (.charsUntil x) c [] (c.fail (.emptyRun x))
  | charsUntilRun {x : Char} {c : Context σ} {text : List Char} (hr : c.remaining? = some text)
      (hw : Parser.without x text ≠ []) :
      Yields rules (.charsUntil x) c (Parser.mismatches x c.position (Parser.without x text))
        (.success (String.ofList (Parser.without x text)) (c.consume (Parser.without x text)))
  | patternEnd {p : Pattern} {c : Context σ} (he : c.isEmpty = true) :
      Yields rules (.pattern p) c [] (c.fail (.patternAtEnd (String.ofList p.source)))
  | patternFound {p : Pattern} {c : Context σ} {taken rest : List Char} {m : PatternMatch}
      (he : c.isEmpty = false) (hr : c.remaining? = some (taken ++ rest))
      (hm : p.match? (taken ++ rest) = some (m, rest)) :
      Yields rules (.pattern p) c [] (.success m (c.consume taken))
  | patternOther {p : Pattern} {c : Context σ} {text : List Char} (he : c.isEmpty = false)
      (hr : c.remaining? = some text) (hm : p.match? text = none) :
      Yields rules (.pattern p) c []
        (c.fail (.patternMismatch (String.ofList text) (String.ofList p.source)))
  | orFirst {α : Type} {a b : Grammar Empty τ σ α} {c d : Context σ} {t : List Event} {v : α}
      (ha : Yields rules a c t (.success v d)) : Yields rules (.or a b) c t (.success v d)
  | orSecond {α : Type} {a b : Grammar Empty τ σ α} {c d : Context σ} {t u : List Event}
      {e : ParseError} {o : Outcome σ α} (ha : Yields rules a c t (.failure e d))
      (hb : Yields rules b c u o) : Yields rules (.or a b) c (t ++ .fallback c.position :: u) o
  | pairFirst {α β : Type} {a : Grammar Empty τ σ α} {b : Grammar Empty τ σ β} {c d : Context σ}
      {t : List Event} {e : ParseError} (ha : Yields rules a c t (.failure e d)) :
      Yields rules (.pair a b) c t (.failure e c)
  | pairSecond {α β : Type} {a : Grammar Empty τ σ α} {b : Grammar Empty τ σ β}
      {c d d' : Context σ} {t u : List Event} {v : α} {e : ParseError}
      (ha : Yields rules a c t (.success v d)) (hb : Yields rules b d u (.failure e d')) :
      Yields rules (.pair a b) c (t ++ u) (.failure e c)
  | pairBoth {α β : Type} {a : Grammar Empty τ σ α} {b : Grammar Empty τ σ β}
      {c d d' : Context σ} {t u : List Event} {v : α} {w : β}
      (ha : Yields rules a c t (.success v d)) (hb : Yields rules b d u (.success w d')) :
      Yields rules (.pair a b) c (t ++ u) (.success (v, w) d')
  | andThenFirst {α β : Type} {a : Grammar Empty τ σ α} {b : Grammar Empty τ σ β}
      {c d : Context σ} {t : List Event} {e : ParseError}
      (ha : Yields rules a c t (.failure e d)) : Yields rules (.andThen a b) c t (.failure e d)
  | andThenBoth {α β : Type} {a : Grammar Empty τ σ α} {b : Grammar Empty τ σ β}
      {c d : Context σ} {t u : List Event} {v : α} {o : Outcome σ β}
      (ha : Yields rules a c t (.success v d)) (hb : Yields rules b d u o) :
      Yields rules (.andThen a b) c (t ++ u) (o.map (v, ·))
  | map {α β : Type} {f : α → β} {a : Grammar Empty τ σ α} {c : Context σ} {t : List Event}
      {o : Outcome σ α} (ha : Yields rules a c t o) : Yields rules (.map f a) c t (o.map f)
  | manyFailed {α : Type} {a : Grammar Empty τ σ α} {c d : Context σ} {t : List Event}
      {e : ParseError} (ha : Yields rules a c t (.failure e d)) :
      Yields rules (.many a) c t (.success [] c)
  | manyStayed {α : Type} {a : Grammar Empty τ σ α} {c d : Context σ} {t : List Event} {v : α}
      (ha : Yields rules a c t (.success v d)) (hs : c.Stays d) :
      Yields rules (.many a) c t (.success [] c)
  | manyMoved {α : Type} {a : Grammar Empty τ σ α} {c d e : Context σ} {t u : List Event} {v : α}
      {vs : List α} (ha : Yields rules a c t (.success v d)) (hm : c.Moves d)
      (hrest : Yields rules (.many a) d u (.success vs e)) :
      Yields rules (.many a) c (t ++ u) (.success (v :: vs) e)
  | many1Failed {α : Type} {a : Grammar Empty τ σ α} {c d : Context σ} {t : List Event}
      {e : ParseError} (ha : Yields rules a c t (.failure e d)) :
      Yields rules (.many1 a) c t (.failure e d)
  | many1Found {α : Type} {a : Grammar Empty τ σ α} {c d e : Context σ} {t u : List Event} {v : α}
      {vs : List α} (ha : Yields rules a c t (.success v d))
      (hrest : Yields rules (.many a) d u (.success vs e)) :
      Yields rules (.many1 a) c (t ++ u) (.success (v :: vs) e)
  | optionalFound {α : Type} {a : Grammar Empty τ σ α} {c d : Context σ} {t : List Event} {v : α}
      (ha : Yields rules a c t (.success v d)) :
      Yields rules (.optional a) c t (.success (some v) d)
  | optionalFailed {α : Type} {a : Grammar Empty τ σ α} {c d : Context σ} {t : List Event}
      {e : ParseError} (ha : Yields rules a c t (.failure e d)) :
      Yields rules (.optional a) c t (.success none c)
  | nestedRefused {α : Type} {a : Grammar Empty τ σ α} {c : Context σ}
      (hl : c.options.nestLimit = some c.nestLevel) :
      Yields rules (.nested a) c [.nestLimit c.nestLevel c.position] (c.fail .nestLimit)
  | nestedAllowed {α : Type} {a : Grammar Empty τ σ α} {c : Context σ} {t : List Event}
      {o : Outcome σ α} (hl : c.options.nestLimit ≠ some c.nestLevel)
      (ha : Yields rules a (c.withLevel (c.nestLevel + 1)) t o) :
      Yields rules (.nested a) c t (o.withLevel c.nestLevel)
  | ref {r : ρ} {c : Context σ} {t : List Event} {o : Outcome σ (τ r)}
      (hr : Yields rules (rules r) c t o) : Yields rules (.ref r) c t o

variable {rules : (r : ρ) → Grammar Empty τ σ (τ r)} {c : Context σ} {t : List Event}

/-! ### Leaves -/

/-- The run `x` of `g` on `c` is an evaluation, or a halt because nothing can be read. -/
def Settles (rules : (r : ρ) → Grammar Empty τ σ (τ r)) (g : Grammar Empty τ σ α) (c : Context σ)
    (x : Run (Outcome σ α)) : Prop :=
  (c.remaining? = none ∧ x = .halt .misplaced) ∨ ∃ t o, x = ⟨t, .ok o⟩ ∧ Yields rules g c t o

theorem Settles.yields {g : Grammar Empty τ σ α} {o : Outcome σ α} {x : Run (Outcome σ α)}
    (hs : Settles rules g c x) (hx : x = ⟨t, .ok o⟩) : Yields rules g c t o := by
  subst hx
  rcases hs with ⟨-, hx⟩ | ⟨t', o', hx, hy⟩
  · cases hx
  · cases hx
    exact hy

theorem settles_char (x : Char) : Settles rules (.char x) c (Parser.char x c) := by
  rcases hr : c.remaining? with _ | _ | ⟨y, rest⟩
  · exact .inl ⟨hr, Context.reading_of_misplaced hr _⟩
  · exact .inr ⟨_, _, Parser.char_nil hr x, .charEnd hr⟩
  · by_cases hy : y = x
    · subst hy
      exact .inr ⟨_, _, Parser.char_self hr, .charFound hr⟩
    · exact .inr ⟨_, _, Parser.char_other hr hy, .charOther hr hy⟩

theorem settles_notChar (x : Char) : Settles rules (.notChar x) c (Parser.notChar x c) := by
  rcases hr : c.remaining? with _ | _ | ⟨y, rest⟩
  · exact .inl ⟨hr, Context.reading_of_misplaced hr _⟩
  · exact .inr ⟨_, _, Parser.notChar_nil hr x, .notCharEnd hr⟩
  · by_cases hy : y = x
    · subst hy
      exact .inr ⟨_, _, Parser.notChar_self hr, .notCharFound hr⟩
    · exact .inr ⟨_, _, Parser.notChar_other hr hy, .notCharOther hr hy⟩

theorem settles_satisfy (label : String) (p : Char → Bool) :
    Settles rules (.satisfy label p) c (Parser.satisfy label p c) := by
  rcases hr : c.remaining? with _ | _ | ⟨y, rest⟩
  · exact .inl ⟨hr, Context.reading_of_misplaced hr _⟩
  · exact .inr ⟨_, _, Parser.satisfy_nil hr, .satisfyEnd hr⟩
  · cases hp : p y with
    | true => exact .inr ⟨_, _, Parser.satisfy_of_true hr hp, .satisfyFound hr hp⟩
    | false => exact .inr ⟨_, _, Parser.satisfy_of_false hr hp, .satisfyOther hr hp⟩

theorem settles_endOfStream : Settles rules .endOfStream c (Parser.endOfStream c) := by
  rcases hr : c.remaining? with _ | _ | ⟨y, rest⟩
  · exact .inl ⟨hr, Context.reading_of_misplaced hr _⟩
  · exact .inr ⟨_, _, Parser.endOfStream_nil hr, .endFound hr⟩
  · exact .inr ⟨_, _, Parser.endOfStream_cons hr, .endOther hr⟩

theorem settles_skipSpaces : Settles rules .skipSpaces c (Parser.skipSpaces c) := by
  rcases hr : c.remaining? with _ | rest
  · exact .inl ⟨hr, Context.reading_of_misplaced hr _⟩
  · exact .inr ⟨_, _, Parser.skipSpaces_eq hr, .skipSpaces hr⟩

theorem settles_charsUntil (x : Char) :
    Settles rules (.charsUntil x) c (Parser.charsUntil x c) := by
  rcases hr : c.remaining? with _ | text
  · exact .inl ⟨hr, Parser.charsUntil_of_misplaced hr x⟩
  · by_cases hw : Parser.without x text = []
    · exact .inr ⟨_, _, (Parser.charsUntil_eq hr).trans (if_pos hw), .charsUntilEmpty hr hw⟩
    · exact .inr ⟨_, _, (Parser.charsUntil_eq hr).trans (if_neg hw), .charsUntilRun hr hw⟩

theorem settles_pattern (p : Pattern) : Settles rules (.pattern p) c (Parser.pattern p c) := by
  cases he : c.isEmpty with
  | true => exact .inr ⟨_, _, Parser.pattern_of_isEmpty he p, .patternEnd he⟩
  | false =>
    rcases hr : c.remaining? with _ | text
    · exact .inl ⟨hr, Parser.pattern_of_misplaced he hr p⟩
    · rcases hm : p.match? text with _ | ⟨m, rest⟩
      · exact .inr ⟨_, _, Parser.pattern_of_none he hr hm, .patternOther he hr hm⟩
      · obtain ⟨taken, rfl, -, -⟩ := Pattern.match?_split hm
        exact .inr ⟨_, _, Parser.pattern_of_some he hr hm rfl, .patternFound he hr hm⟩

def IsLeaf : {α : Type} → Grammar Empty τ σ α → Bool
  | _, char _ | _, notChar _ | _, satisfy _ _ | _, endOfStream | _, noChoice | _, just _ | _, state
  | _, update _ | _, skipSpaces | _, charsUntil _ | _, pattern _ => true
  | _, _ => false

theorem settles_leaf (rules : (r : ρ) → Grammar Empty τ σ (τ r)) {g : Grammar Empty τ σ α}
    (hg : g.IsLeaf = true) (env : (r : ρ) → Parser σ (τ r)) :
    Settles rules g c (g.meaning env c) := by
  cases g with
  | char x => exact settles_char x
  | notChar x => exact settles_notChar x
  | satisfy label p => exact settles_satisfy label p
  | endOfStream => exact settles_endOfStream
  | noChoice => exact .inr ⟨_, _, rfl, .noChoice⟩
  | just v => exact .inr ⟨_, _, rfl, .just⟩
  | state => exact .inr ⟨_, _, rfl, .state⟩
  | update f => exact .inr ⟨_, _, rfl, .update⟩
  | skipSpaces => exact settles_skipSpaces
  | charsUntil x => exact settles_charsUntil x
  | pattern p => exact settles_pattern p
  | _ => cases hg

theorem leaf_halts {g : Grammar Empty τ σ α} (hg : g.IsLeaf = true)
    {env : (r : ρ) → Parser σ (τ r)} {h : Halt} (hh : (g.meaning env c).result = .error h) :
    h = .misplaced ∧ ¬ c.Placed := by
  rcases settles_leaf (fun r => ref r) hg env with ⟨hr, hx⟩ | ⟨t, o, hx, -⟩
  · rw [hx] at hh
    cases hh
    exact ⟨rfl, Context.not_placed_iff.mpr hr⟩
  · rw [hx] at hh
    cases hh

/-! ### From runs to evaluations -/

theorem yields_many {a : Grammar Empty τ σ α} {p : Parser σ α}
    (ha : ∀ {c t o}, p c = ⟨t, .ok o⟩ → Yields rules a c t o) {n : Nat} {vs : List α}
    {e : Context σ} (h : Parser.repeated p n c = ⟨t, .ok (vs, e)⟩) :
    Yields rules (.many a) c t (.success vs e) := by
  induction n generalizing c t vs with
  | zero =>
    rcases Parser.repeated_eq_ok.mp h with ⟨err, d, hp, rfl, rfl⟩ | ⟨v, d, hp, hs, rfl, rfl⟩ |
      ⟨v, d, m, ws, t₁, t₂, hp, hm, hn, hrec, rfl, rfl⟩
    · exact .manyFailed (ha hp)
    · exact .manyStayed (ha hp) hs
    · cases hn
  | succ n ih =>
    rcases Parser.repeated_eq_ok.mp h with ⟨err, d, hp, rfl, rfl⟩ | ⟨v, d, hp, hs, rfl, rfl⟩ |
      ⟨v, d, m, ws, t₁, t₂, hp, hm, hn, hrec, rfl, rfl⟩
    · exact .manyFailed (ha hp)
    · exact .manyStayed (ha hp) hs
    · cases hn
      exact .manyMoved (ha hp) hm (ih hrec)

theorem yields_meaning {env : (r : ρ) → Parser σ (τ r)}
    (henv : ∀ {r c t o}, env r c = ⟨t, .ok o⟩ → Yields rules (.ref r) c t o)
    (g : Grammar Empty τ σ α) {c : Context σ} {t : List Event} {o : Outcome σ α}
    (h : g.meaning env c = ⟨t, .ok o⟩) : Yields rules g c t o := by
  induction g generalizing c t with
  | char | notChar | satisfy | endOfStream | noChoice | just | state | update | skipSpaces
  | charsUntil | pattern => exact (settles_leaf rules rfl env).yields h
  | or a b iha ihb =>
    rcases Parser.or_eq_ok.mp h with ⟨v, d, ha, rfl⟩ | ⟨e, d, t₁, t₂, ha, hb, rfl⟩
    · exact .orFirst (iha ha)
    · exact .orSecond (iha ha) (ihb hb)
  | pair a b iha ihb =>
    rcases Parser.pair_eq_ok.mp h with ⟨e, d, ha, rfl⟩ |
      ⟨t₁, v, d, t₂, ha, rfl, ⟨e, d', hb, rfl⟩ | ⟨w, d', hb, rfl⟩⟩
    · exact .pairFirst (iha ha)
    · exact .pairSecond (iha ha) (ihb hb)
    · exact .pairBoth (iha ha) (ihb hb)
  | andThen a b iha ihb =>
    rcases Parser.andThen_eq_ok.mp h with ⟨e, d, ha, rfl⟩ | ⟨t₁, v, d, t₂, o', ha, hb, rfl, rfl⟩
    · exact .andThenFirst (iha ha)
    · exact .andThenBoth (iha ha) (ihb hb)
  | map f a iha =>
    obtain ⟨o', ha, rfl⟩ := Parser.map_eq_ok.mp h
    exact .map (iha ha)
  | many a iha =>
    obtain ⟨vs, d, hrep, rfl⟩ := Parser.many_eq_ok.mp h
    exact yields_many iha hrep
  | many1 a iha =>
    rcases Parser.many1_eq_ok.mp h with ⟨e, d, ha, rfl⟩ | ⟨t₁, v, d, t₂, vs, e, ha, hrep, rfl, rfl⟩
    · exact .many1Failed (iha ha)
    · exact .many1Found (iha ha) (yields_many iha hrep)
  | optional a iha =>
    rcases Parser.optional_eq_ok.mp h with ⟨v, d, ha, rfl⟩ | ⟨e, d, ha, rfl⟩
    · exact .optionalFound (iha ha)
    · exact .optionalFailed (iha ha)
  | nested a iha =>
    rcases Parser.nested_eq_ok.mp h with ⟨hl, rfl, rfl⟩ | ⟨hl, o', ha, rfl⟩
    · exact .nestedRefused hl
    · exact .nestedAllowed hl (iha ha)
  | ref r => exact henv h
  | foreign licence f a iha => exact licence.elim

theorem yields_unfold {depth : Nat} {r : ρ} {c : Context σ} {t : List Event} {o : Outcome σ (τ r)}
    (h : unfold rules depth r c = ⟨t, .ok o⟩) : Yields rules (.ref r) c t o := by
  induction depth generalizing r c t with
  | zero => cases h
  | succ depth ih => exact .ref (yields_meaning ih (rules r) h)

theorem yields_of_run {depth : Nat} {g : Grammar Empty τ σ α} {o : Outcome σ α}
    (h : run rules depth g c = ⟨t, .ok o⟩) : Yields rules g c t o :=
  yields_meaning yields_unfold g h

/-! ### A recursive grammar -/

/-- Balanced brackets, counted by depth; what is not balanced counts as nothing. -/
def parens : Unit → Grammar Empty (fun _ : Unit => Nat) σ Nat := fun _ =>
  .or (.map (· + 1) (.between (.char '(') (.ref ()) (.char ')'))) (.just 0)

end Grammar

end StreamParser
