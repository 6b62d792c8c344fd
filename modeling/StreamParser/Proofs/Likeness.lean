import Mathlib.Data.List.Forall2
import StreamParser.Proofs.Evaluation
import StreamParser.Proofs.Part

/-!
# Runs that are alike

Two runs are alike if their events correspond one by one and they come to corresponding outcomes, or
halt alike. What corresponds is a matter of the comparison at hand: a `Likeness` says it of contexts,
errors and events, and is `Lawful` if the leaves and the combinators cannot tell corresponding
contexts apart. Then a grammar has like runs on them, through all loops and rules (`like_run`). Where
states may differ it is `Readable` only, and what the grammar does to the state is looked at apart
(`like_run_of_parts`).
-/

namespace StreamParser

/-- Which contexts, errors and events may stand for each other. Once the first run has logged a
`stray` event, nothing is asked of the second one. -/
structure Likeness (σ : Type) where
  contexts : Context σ → Context σ → Prop
  errors : ParseError → ParseError → Prop
  events : Event → Event → Prop
  stray : Event → Prop

def Cause.isPlain : Cause → Bool
  | .endReached .. | .mismatch (.char _) _ => false
  | _ => true

namespace Likeness

variable {σ α β γ δ : Type} {L : Likeness σ} {c d : Context σ}

inductive Answers (R : β → γ → Prop) : Except Halt β → Except Halt γ → Prop where
  | ok {b : β} {b' : γ} (h : R b b') : Answers R (.ok b) (.ok b')
  | error (h : Halt) : Answers R (.error h) (.error h)

inductive Outcomes (L : Likeness σ) : Outcome σ α → Outcome σ α → Prop where
  | success {v : α} {c d : Context σ} (h : L.contexts c d) :
      Outcomes L (.success v c) (.success v d)
  | failure {e f : ParseError} {c d : Context σ} (he : L.errors e f) (h : L.contexts c d) :
      Outcomes L (.failure e c) (.failure f d)

def Runs (L : Likeness σ) (R : β → γ → Prop) (x : Run β) (y : Run γ) : Prop :=
  (∃ e ∈ x.trace, L.stray e) ∨ (List.Forall₂ L.events x.trace y.trace ∧ Answers R x.result y.result)

def Parsers (L : Likeness σ) (p q : Parser σ α) : Prop :=
  ∀ c d, L.contexts c d → L.Runs L.Outcomes (p c) (q d)

def RespectsNesting (L : Likeness σ) : Prop :=
  ∀ {α : Type} {p q : Parser σ α}, L.Parsers p q → L.Parsers (Parser.nested p) (Parser.nested q)

/-! ### Runs in a row -/

namespace Runs

variable {R : β → γ → Prop}

theorem pure {b : β} {b' : γ} (h : R b b') : L.Runs R (Pure.pure b) (Pure.pure b') :=
  .inr ⟨.nil, .ok h⟩

theorem halt (h : Halt) : L.Runs R (Run.halt h) (Run.halt h) := .inr ⟨.nil, .error h⟩

theorem log {e f : Event} (h : L.events e f) :
    L.Runs (fun _ _ => True) (Run.log e) (Run.log f) :=
  .inr ⟨.cons h .nil, .ok trivial⟩

theorem bind {S : δ → α → Prop} {x : Run β} {y : Run γ} {f : β → Run δ} {g : γ → Run α}
    (hx : L.Runs R x y) (hfg : ∀ b b', R b b' → L.Runs S (f b) (g b')) :
    L.Runs S (x >>= f) (y >>= g) := by
  obtain ⟨t, xr⟩ := x
  obtain ⟨u, yr⟩ := y
  rcases hx with ⟨e, he, hstray⟩ | ⟨htrace, hanswer⟩
  · refine .inl ⟨e, ?_, hstray⟩
    cases xr with
    | ok b => exact List.mem_append_left _ he
    | error h => exact he
  · cases hanswer with
    | error h => exact .inr ⟨htrace, .error h⟩
    | @ok b b' hb =>
      rcases hfg b b' hb with ⟨e, he, hstray⟩ | ⟨htrace', hanswer'⟩
      · exact .inl ⟨e, List.mem_append_right _ he, hstray⟩
      · exact .inr ⟨List.rel_append htrace htrace', hanswer'⟩

end Runs

/-! ### Combinators that look at outcomes only -/

namespace Parsers

variable {p p' : Parser σ α} {q q' : Parser σ β}

theorem pair (hp : L.Parsers p p') (hq : L.Parsers q q') :
    L.Parsers (Parser.pair p q) (Parser.pair p' q') := by
  intro c d h
  refine .bind (hp c d h) fun o o' ho => ?_
  cases ho with
  | failure he _ => exact .pure (.failure he h)
  | @success v c₁ d₁ h₁ =>
    refine .bind (hq c₁ d₁ h₁) fun o o' ho => ?_
    cases ho with
    | failure he _ => exact .pure (.failure he h)
    | success h₂ => exact .pure (.success h₂)

theorem andThen (hp : L.Parsers p p') (hq : L.Parsers q q') :
    L.Parsers (Parser.andThen p q) (Parser.andThen p' q') := by
  intro c d h
  refine .bind (hp c d h) fun o o' ho => ?_
  cases ho with
  | failure he hd => exact .pure (.failure he hd)
  | @success v c₁ d₁ h₁ =>
    refine .bind (hq c₁ d₁ h₁) fun o o' ho => ?_
    cases ho with
    | failure he h₂ => exact .pure (.failure he h₂)
    | success h₂ => exact .pure (.success h₂)

theorem map (f : α → β) (hp : L.Parsers p p') : L.Parsers (Parser.map f p) (Parser.map f p') := by
  intro c d h
  refine .bind (hp c d h) fun o o' ho => ?_
  cases ho with
  | failure he hd => exact .pure (.failure he hd)
  | success hd => exact .pure (.success hd)

theorem optional (hp : L.Parsers p p') : L.Parsers (Parser.optional p) (Parser.optional p') := by
  intro c d h
  refine .bind (hp c d h) fun o o' ho => ?_
  cases ho with
  | failure _ _ => exact .pure (.success h)
  | success hd => exact .pure (.success hd)

end Parsers

/-- What a comparison has to respect for the parsers to respect it that leave the state alone. -/
structure Readable (L : Likeness σ) : Prop where
  remaining?_eq {c d : Context σ} (h : L.contexts c d) : d.remaining? = c.remaining?
  isEmpty_eq {c d : Context σ} (h : L.contexts c d) : d.isEmpty = c.isEmpty
  consume {c d : Context σ} {taken rest : List Char} (h : L.contexts c d)
    (hr : c.remaining? = some (taken ++ rest)) : L.contexts (c.consume taken) (d.consume taken)
  mismatch {c d : Context σ} (h : L.contexts c d) (x y : Char) :
    L.events (.mismatch x y c.position) (.mismatch x y d.position)
  fallback {c d : Context σ} (h : L.contexts c d) :
    L.events (.fallback c.position) (.fallback d.position)
  error {c d : Context σ} (h : L.contexts c d) (cause : Cause) (hc : cause.isPlain = true) :
    L.errors (.located ⟨c.position, cause⟩) (.located ⟨d.position, cause⟩)
  errorAtEnd {c d : Context σ} (h : L.contexts c d) (w : Wanted) :
    L.errors (.located ⟨c.position, .endReached w c.position.stream⟩)
      (.located ⟨d.position, .endReached w d.position.stream⟩)
  errorAtMismatch {c d : Context σ} (h : L.contexts c d) (x y : Char) :
    L.errors (.located ⟨c.mismatchPlace, .mismatch (.char x) y⟩)
      (.located ⟨d.mismatchPlace, .mismatch (.char x) y⟩)

structure Lawful (L : Likeness σ) : Prop extends Readable L where
  state_eq {c d : Context σ} (h : L.contexts c d) : d.state = c.state
  withState {c d : Context σ} (h : L.contexts c d) (s : σ) :
    L.contexts (c.withState s) (d.withState s)

namespace Readable

variable (hL : L.Readable)
include hL

theorem remaining_eq (h : L.contexts c d) : d.remaining = c.remaining := by
  rw [Context.remaining, Context.remaining, hL.remaining?_eq h]

theorem consume_head {x : Char} {rest : List Char} (h : L.contexts c d)
    (hr : c.remaining? = some (x :: rest)) : L.contexts (c.consume [x]) (d.consume [x]) := by
  have hsplit : c.remaining? = some ([x] ++ rest) := hr
  exact hL.consume h hsplit

theorem reading {R : β → γ → Prop} {f : List Char → Run β} {g : List Char → Run γ}
    (h : L.contexts c d) (hfg : ∀ rest, c.remaining? = some rest → L.Runs R (f rest) (g rest)) :
    L.Runs R (c.reading f) (d.reading g) := by
  cases hr : c.remaining? with
  | none =>
    rw [Context.reading_of_misplaced hr,
      Context.reading_of_misplaced ((hL.remaining?_eq h).trans hr)]
    exact .halt .misplaced
  | some rest =>
    rw [Context.reading_of_remaining? hr,
      Context.reading_of_remaining? ((hL.remaining?_eq h).trans hr)]
    exact hfg rest hr

theorem fail (h : L.contexts c d) (cause : Cause) (hc : cause.isPlain = true) :
    L.Runs L.Outcomes (pure (c.fail cause : Outcome σ α)) (pure (d.fail cause)) :=
  .pure (.failure (hL.error h cause hc) h)

theorem failAtEnd (h : L.contexts c d) (w : Wanted) :
    L.Runs L.Outcomes (pure (c.fail (.endReached w c.position.stream) : Outcome σ α))
      (pure (d.fail (.endReached w d.position.stream))) :=
  .pure (.failure (hL.errorAtEnd h w) h)

/-! ### Leaves -/

theorem char (x : Char) : L.Parsers (Parser.char x) (Parser.char x) := by
  intro c d h
  rcases hr : c.remaining? with _ | _ | ⟨y, rest⟩
  · exact hL.reading h fun rest hr' => by cases hr.symm.trans hr'
  · rw [Parser.char_nil hr, Parser.char_nil ((hL.remaining?_eq h).trans hr)]
    exact hL.failAtEnd h _
  · have hr' := (hL.remaining?_eq h).trans hr
    by_cases hy : y = x
    · subst hy
      rw [Parser.char_self hr, Parser.char_self hr']
      exact .pure (.success (hL.consume_head h hr))
    · rw [Parser.char_other hr hy, Parser.char_other hr' hy]
      exact .inr ⟨.cons (hL.mismatch h x y) .nil, .ok (.failure (hL.errorAtMismatch h x y) h)⟩

theorem notChar (x : Char) : L.Parsers (Parser.notChar x) (Parser.notChar x) := by
  intro c d h
  rcases hr : c.remaining? with _ | _ | ⟨y, rest⟩
  · exact hL.reading h fun rest hr' => by cases hr.symm.trans hr'
  · rw [Parser.notChar_nil hr, Parser.notChar_nil ((hL.remaining?_eq h).trans hr)]
    exact hL.failAtEnd h _
  · have hr' := (hL.remaining?_eq h).trans hr
    by_cases hy : y = x
    · subst hy
      rw [Parser.notChar_self hr, Parser.notChar_self hr']
      exact hL.fail h _ rfl
    · rw [Parser.notChar_other hr hy, Parser.notChar_other hr' hy]
      exact .inr ⟨.cons (hL.mismatch h x y) .nil, .ok (.success (hL.consume_head h hr))⟩

theorem satisfy (label : String) (p : Char → Bool) :
    L.Parsers (Parser.satisfy label p) (Parser.satisfy label p) := by
  intro c d h
  rcases hr : c.remaining? with _ | _ | ⟨y, rest⟩
  · exact hL.reading h fun rest hr' => by cases hr.symm.trans hr'
  · rw [Parser.satisfy_nil hr, Parser.satisfy_nil ((hL.remaining?_eq h).trans hr)]
    exact hL.failAtEnd h _
  · have hr' := (hL.remaining?_eq h).trans hr
    cases hp : p y with
    | true =>
      rw [Parser.satisfy_of_true hr hp, Parser.satisfy_of_true hr' hp]
      exact .pure (.success (hL.consume_head h hr))
    | false =>
      rw [Parser.satisfy_of_false hr hp, Parser.satisfy_of_false hr' hp]
      exact hL.fail h _ rfl

theorem endOfStream : L.Parsers Parser.endOfStream Parser.endOfStream := by
  intro c d h
  rcases hr : c.remaining? with _ | _ | ⟨y, rest⟩
  · exact hL.reading h fun rest hr' => by cases hr.symm.trans hr'
  · rw [Parser.endOfStream_nil hr, Parser.endOfStream_nil ((hL.remaining?_eq h).trans hr)]
    exact .pure (.success h)
  · rw [Parser.endOfStream_cons hr, Parser.endOfStream_cons ((hL.remaining?_eq h).trans hr)]
    exact hL.fail h _ rfl

theorem skipSpaces : L.Parsers Parser.skipSpaces Parser.skipSpaces := by
  intro c d h
  rcases hr : c.remaining? with _ | text
  · exact hL.reading h fun rest hr' => by cases hr.symm.trans hr'
  · rw [Parser.skipSpaces_eq hr, Parser.skipSpaces_eq ((hL.remaining?_eq h).trans hr)]
    rw [← List.takeWhile_append_dropWhile (p := (· = ' ')) (l := text)] at hr
    exact .pure (.success (hL.consume h hr))

theorem mismatches (x : Char) {run rest : List Char} (h : L.contexts c d)
    (hr : c.remaining? = some (run ++ rest)) :
    List.Forall₂ L.events (Parser.mismatches x c.position run)
      (Parser.mismatches x d.position run) := by
  induction run generalizing c d with
  | nil => exact .nil
  | cons y run ih =>
    have hsplit : c.remaining? = some ([y] ++ (run ++ rest)) := hr
    exact .cons (hL.mismatch h x y)
      (ih (hL.consume h hsplit) (Context.remaining?_consume hsplit))

theorem charsUntil (x : Char) : L.Parsers (Parser.charsUntil x) (Parser.charsUntil x) := by
  intro c d h
  rcases hr : c.remaining? with _ | text
  · rw [Parser.charsUntil_of_misplaced hr,
      Parser.charsUntil_of_misplaced ((hL.remaining?_eq h).trans hr)]
    exact .halt .misplaced
  · rw [Parser.charsUntil_eq hr, Parser.charsUntil_eq ((hL.remaining?_eq h).trans hr)]
    by_cases hw : Parser.without x text = []
    · rw [if_pos hw, if_pos hw]
      exact hL.fail h _ rfl
    · rw [if_neg hw, if_neg hw]
      rw [← Parser.without_append_dropWhile x text] at hr
      exact .inr ⟨hL.mismatches x h hr, .ok (.success (hL.consume h hr))⟩

theorem pattern (p : Pattern) : L.Parsers (Parser.pattern p) (Parser.pattern p) := by
  intro c d h
  have hempty := hL.isEmpty_eq h
  cases he : c.isEmpty with
  | true =>
    rw [Parser.pattern_of_isEmpty he, Parser.pattern_of_isEmpty (hempty.trans he)]
    exact hL.fail h _ rfl
  | false =>
    rcases hr : c.remaining? with _ | text
    · rw [Parser.pattern_of_misplaced he hr,
        Parser.pattern_of_misplaced (hempty.trans he) ((hL.remaining?_eq h).trans hr)]
      exact .halt .misplaced
    · have hr' := (hL.remaining?_eq h).trans hr
      rcases hm : p.match? text with _ | ⟨m, rest⟩
      · rw [Parser.pattern_of_none he hr hm, Parser.pattern_of_none (hempty.trans he) hr' hm]
        exact hL.fail h _ rfl
      · obtain ⟨taken, rfl, -, -⟩ := Pattern.match?_split hm
        rw [Parser.pattern_of_some he hr hm rfl,
          Parser.pattern_of_some (hempty.trans he) hr' hm rfl]
        exact .pure (.success (hL.consume h hr))

/-! ### Combinators that look at the context -/

variable {p p' q q' : Parser σ α}

theorem or (hp : L.Parsers p p') (hq : L.Parsers q q') :
    L.Parsers (Parser.or p q) (Parser.or p' q') := by
  intro c d h
  refine .bind (hp c d h) fun o o' ho => ?_
  cases ho with
  | success hd => exact .pure (.success hd)
  | failure _ _ => exact .bind (.log (hL.fallback h)) fun _ _ _ => hq c d h

/-- The rounds of a repetition end together, since as much remains in both runs, and where they do,
the contexts they go back to are alike. What is left is how the repetition goes on. -/
theorem round {next next' : α → Context σ → Run (List α × Context σ)} (hp : L.Parsers p p')
    (h : L.contexts c d)
    (hnext : ∀ v c₁ d₁, L.contexts c₁ d₁ →
      L.Runs (fun r r' => r'.1 = r.1 ∧ L.contexts r.2 r'.2) (next v c₁) (next' v d₁)) :
    L.Runs (fun r r' => r'.1 = r.1 ∧ L.contexts r.2 r'.2)
      (p c >>= fun
        | .failure .. => pure ([], c)
        | .success v c₁ => c₁.reading fun after => c.reading fun before =>
          if byteSize after = byteSize before then pure ([], c) else next v c₁)
      (p' d >>= fun
        | .failure .. => pure ([], d)
        | .success v d₁ => d₁.reading fun after => d.reading fun before =>
          if byteSize after = byteSize before then pure ([], d) else next' v d₁) := by
  refine .bind (hp c d h) fun o o' ho => ?_
  cases ho with
  | failure _ _ => exact .pure ⟨rfl, h⟩
  | @success v c₁ d₁ h₁ =>
    refine hL.reading h₁ fun after _ => hL.reading h fun before _ => ?_
    split
    · exact .pure ⟨rfl, h⟩
    · exact hnext v c₁ d₁ h₁

theorem repeated (hp : L.Parsers p p') (n : Nat) (h : L.contexts c d) :
    L.Runs (fun r r' => r'.1 = r.1 ∧ L.contexts r.2 r'.2)
      (Parser.repeated p n c) (Parser.repeated p' n d) := by
  induction n generalizing c d with
  | zero =>
    rw [Parser.repeated, Parser.repeated]
    exact hL.round hp h fun v c₁ d₁ _ => .halt .unfinished
  | succ n ih =>
    rw [Parser.repeated, Parser.repeated]
    refine hL.round hp h fun v c₁ d₁ h₁ => .bind (ih h₁) fun r r' hr => ?_
    have hvalues : v :: r'.1 = v :: r.1 := by rw [hr.1]
    exact .pure ⟨hvalues, hr.2⟩

theorem many (hp : L.Parsers p p') : L.Parsers (Parser.many p) (Parser.many p') := by
  intro c d h
  rw [Parser.many, Parser.many, hL.remaining_eq h]
  refine .bind (hL.repeated hp _ h) fun r r' hr => ?_
  obtain ⟨vs, e⟩ := r
  obtain ⟨ws, e'⟩ := r'
  obtain ⟨rfl, he⟩ := hr
  exact .pure (.success he)

theorem many1 (hp : L.Parsers p p') : L.Parsers (Parser.many1 p) (Parser.many1 p') := by
  intro c d h
  refine .bind (hp c d h) fun o o' ho => ?_
  cases ho with
  | failure he hd => exact .pure (.failure he hd)
  | success h₁ =>
    simp only [hL.remaining_eq h₁]
    refine .bind (hL.repeated hp _ h₁) fun r r' hr => ?_
    obtain ⟨vs, e⟩ := r
    obtain ⟨ws, e'⟩ := r'
    obtain ⟨rfl, he⟩ := hr
    exact .pure (.success he)

theorem respectsNesting
    (hlimit : ∀ {c d}, L.contexts c d → d.options.nestLimit = c.options.nestLimit)
    (hlevel : ∀ {c d}, L.contexts c d → d.nestLevel = c.nestLevel)
    (withLevel : ∀ {c d} l, L.contexts c d → L.contexts (c.withLevel l) (d.withLevel l))
    (refused : ∀ {c d}, L.contexts c d →
      L.events (.nestLimit c.nestLevel c.position) (.nestLimit c.nestLevel d.position)) :
    L.RespectsNesting := by
  intro α p p' hp c d h
  have hsame : d.options.nestLimit = some d.nestLevel ↔ c.options.nestLimit = some c.nestLevel := by
    rw [hlimit h, hlevel h]
  by_cases hl : c.options.nestLimit = some c.nestLevel
  · rw [Parser.nested_of_limit hl, Parser.nested_of_limit (hsame.mpr hl), hlevel h]
    exact .inr ⟨.cons (refused h) .nil, .ok (.failure (hL.error h _ rfl) h)⟩
  · rw [Parser.nested_of_below hl, Parser.nested_of_below (fun hd => hl (hsame.mp hd)), hlevel h]
    refine .bind (hp _ _ (withLevel _ h)) fun o o' ho => ?_
    cases ho with
    | failure he hd => exact .pure (.failure he (withLevel _ hd))
    | success hd => exact .pure (.success (withLevel _ hd))

end Readable

namespace Lawful

variable (hL : L.Lawful)
include hL

theorem state : L.Parsers Parser.state Parser.state := by
  intro c d h
  rw [Parser.state, Parser.state, hL.state_eq h]
  exact .pure (.success h)

theorem update (f : σ → σ) : L.Parsers (Parser.update f) (Parser.update f) := by
  intro c d h
  rw [Parser.update, Parser.update, hL.state_eq h]
  exact .pure (.success (hL.withState h _))

end Lawful

end Likeness

namespace Grammar

variable {ρ : Type} {τ : ρ → Type} {σ α β : Type} {L : Likeness σ}

def IsReader : {α : Type} → Grammar Empty τ σ α → Bool
  | _, state | _, update _ => false
  | _, g => g.IsLeaf

theorem like_reader (hL : L.Readable) {g : Grammar Empty τ σ α} (hg : g.IsReader = true)
    (env env' : (r : ρ) → Parser σ (τ r)) : L.Parsers (g.meaning env) (g.meaning env') := by
  cases g with
  | char x => exact hL.char x
  | notChar x => exact hL.notChar x
  | satisfy label p => exact hL.satisfy label p
  | endOfStream => exact hL.endOfStream
  | noChoice => exact fun c d h => hL.fail h _ rfl
  | just v => exact fun c d h => .pure (.success h)
  | skipSpaces => exact hL.skipSpaces
  | charsUntil x => exact hL.charsUntil x
  | pattern p => exact hL.pattern p
  | _ => cases hg

theorem like_leaf (hL : L.Lawful) {g : Grammar Empty τ σ α} (hg : g.IsLeaf = true)
    (env env' : (r : ρ) → Parser σ (τ r)) : L.Parsers (g.meaning env) (g.meaning env') := by
  cases g with
  | char | notChar | satisfy | endOfStream | noChoice | just | skipSpaces | charsUntil | pattern =>
    exact like_reader hL.toReadable rfl env env'
  | state => exact hL.state
  | update f => exact hL.update f
  | _ => cases hg

/-- The parts of a grammar that a comparison has to be told about. -/
structure RespectsParts (rules : (r : ρ) → Grammar Empty τ σ (τ r)) (L : Likeness σ)
    (env env' : (r : ρ) → Parser σ (τ r)) (g : Grammar Empty τ σ α) : Prop where
  state : HasPart rules (state : Grammar Empty τ σ σ) g → L.Parsers Parser.state Parser.state
  update (f : σ → σ) : HasPart rules (update f) g → L.Parsers (Parser.update f) (Parser.update f)
  ref (r : ρ) : HasPart rules (ref r) g → L.Parsers (env r) (env' r)

variable {rules : (r : ρ) → Grammar Empty τ σ (τ r)} {env env' : (r : ρ) → Parser σ (τ r)}

theorem RespectsParts.part {g : Grammar Empty τ σ α} {h : Grammar Empty τ σ β}
    (hg : RespectsParts rules L env env' g) (hh : HasPart rules h g) :
    RespectsParts rules L env env' h where
  state hs := hg.state (hs.trans hh)
  update f hf := hg.update f (hf.trans hh)
  ref r hr := hg.ref r (hr.trans hh)

theorem like_of_parts (hL : L.Readable) (hnested : L.RespectsNesting) (g : Grammar Empty τ σ α)
    (hg : RespectsParts rules L env env' g) : L.Parsers (g.meaning env) (g.meaning env') := by
  induction g with
  | char | notChar | satisfy | endOfStream | noChoice | just | skipSpaces | charsUntil | pattern =>
    exact like_reader hL rfl env env'
  | state => exact hg.state .self
  | update f => exact hg.update f .self
  | or a b iha ihb => exact hL.or (iha (hg.part (.orLeft b .self))) (ihb (hg.part (.orRight a .self)))
  | pair a b iha ihb =>
    exact .pair (iha (hg.part (.pairLeft b .self))) (ihb (hg.part (.pairRight a .self)))
  | andThen a b iha ihb =>
    exact .andThen (iha (hg.part (.andThenLeft b .self))) (ihb (hg.part (.andThenRight a .self)))
  | map f a iha => exact .map f (iha (hg.part (.map f .self)))
  | many a iha => exact hL.many (iha (hg.part (.many .self)))
  | many1 a iha => exact hL.many1 (iha (hg.part (.many1 .self)))
  | optional a iha => exact .optional (iha (hg.part (.optional .self)))
  | nested a iha => exact hnested (iha (hg.part (.nested .self)))
  | ref r => exact hg.ref r .self
  | foreign licence => exact licence.elim

/-- At every depth a grammar has like runs on like contexts, if what it does to the state, by itself or
through its rules, is respected. -/
theorem like_run_of_parts (hL : L.Readable) (hnested : L.RespectsNesting) (g : Grammar Empty τ σ α)
    (hstate : HasPart rules (state : Grammar Empty τ σ σ) g → L.Parsers Parser.state Parser.state)
    (hupdate : ∀ f, HasPart rules (update f) g → L.Parsers (Parser.update f) (Parser.update f))
    (depth : Nat) : L.Parsers (run rules depth g) (run rules depth g) := by
  have hrules (depth : Nat) (r : ρ) (hr : HasPart rules (ref r) g) :
      L.Parsers (unfold rules depth r) (unfold rules depth r) := by
    induction depth generalizing r with
    | zero => exact fun c d h => .halt .unfinished
    | succ depth ih =>
      apply like_of_parts hL hnested (rules r)
      exact ⟨fun hs => hstate ((HasPart.ref hs).trans hr),
        fun f hf => hupdate f ((HasPart.ref hf).trans hr),
        fun q hq => ih q ((HasPart.ref hq).trans hr)⟩
  exact like_of_parts hL hnested g ⟨hstate, hupdate, hrules depth⟩

theorem like_run (rules : (r : ρ) → Grammar Empty τ σ (τ r)) (hL : L.Lawful)
    (hnested : L.RespectsNesting) (depth : Nat) (g : Grammar Empty τ σ α) :
    L.Parsers (run rules depth g) (run rules depth g) :=
  like_run_of_parts hL.toReadable hnested g (fun _ => hL.state) (fun f _ => hL.update f) depth

end Grammar

end StreamParser
