import StreamParser.Proofs.Coherence

/-!
# Where errors come from

The error of a failure was raised by a library parser that fails by itself, at a place that lies no
earlier than the context the failure carries. `Explains c e` says what has to stand at `c` for such
a parser to raise `e` there; `Raises c e` that one of them does when it is run there.
-/

namespace StreamParser

namespace Context

variable {σ : Type} {c d f : Context σ} {e : LocatedError}

/-- What stands at `c`, or the level reached there, accounts for the error `e`. -/
inductive Explains (c : Context σ) : LocatedError → Prop where
  | charEnd (x : Char) (hr : c.remaining? = some []) :
      Explains c ⟨c.position, .endReached (.char x) c.position.stream⟩
  | charOther {x y : Char} {rest : List Char} (hr : c.remaining? = some (y :: rest)) (hne : y ≠ x) :
      Explains c ⟨c.mismatchPlace, .mismatch (.char x) y⟩
  | notChar {x : Char} {rest : List Char} (hr : c.remaining? = some (x :: rest)) :
      Explains c ⟨c.position, .excluded x x⟩
  | classEnd (label : String) (p : Char → Bool) (hr : c.remaining? = some []) :
      Explains c ⟨c.position, .endReached (.label label) c.position.stream⟩
  | classOther (label : String) {p : Char → Bool} {y : Char} {rest : List Char}
      (hr : c.remaining? = some (y :: rest)) (hp : p y = false) :
      Explains c ⟨c.position, .mismatch (.label label) y⟩
  | endOther {y : Char} {rest : List Char} (hr : c.remaining? = some (y :: rest)) :
      Explains c ⟨c.position, .mismatch .endOfStream y⟩
  | noChoice : Explains c ⟨c.position, .noAlternative⟩
  | emptyRun {x : Char} {text : List Char} (hr : c.remaining? = some text)
      (hw : Parser.without x text = []) : Explains c ⟨c.position, .emptyRun x⟩
  | patternEnd (p : Pattern) (he : c.isEmpty = true) :
      Explains c ⟨c.position, .patternAtEnd (String.ofList p.source)⟩
  | patternOther {p : Pattern} {text : List Char} (he : c.isEmpty = false)
      (hr : c.remaining? = some text) (hm : p.match? text = none) :
      Explains c ⟨c.position, .patternMismatch (String.ofList text) (String.ofList p.source)⟩
  | nestLimit {level : Nat} (hl : c.nestLevel ≤ level) (ho : c.options.nestLimit = some level) :
      Explains c ⟨c.position, .nestLimit⟩

namespace Explains

theorem of_withState_withLevel {s : σ} {l : Nat} (hl : c.nestLevel ≤ l)
    (h : ((c.withState s).withLevel l).Explains e) : c.Explains e := by
  cases h with
  | charEnd x hr => exact .charEnd x hr
  | charOther hr hne => exact .charOther hr hne
  | notChar hr => exact .notChar hr
  | classEnd label p hr => exact .classEnd label p hr
  | classOther label hr hp => exact .classOther label hr hp
  | endOther hr => exact .endOther hr
  | noChoice => exact .noChoice
  | emptyRun hr hw => exact .emptyRun hr hw
  | patternEnd p he => exact .patternEnd p he
  | patternOther he hr hm => exact .patternOther he hr hm
  | nestLimit hm ho => exact .nestLimit (Nat.le_trans hl hm) ho

theorem of_withState {s : σ} (h : (c.withState s).Explains e) : c.Explains e :=
  of_withState_withLevel (s := s) (l := c.nestLevel) (Nat.le_refl _) h

theorem of_withLevel {l : Nat} (hl : c.nestLevel ≤ l) (h : (c.withLevel l).Explains e) :
    c.Explains e :=
  of_withState_withLevel (s := c.state) hl h

theorem position_eq (h : c.Explains e) : e.position = c.position ∨
    (e.position = c.position.bumpColumn ∧ c.options.bumpOnMismatch = true ∧
      ∃ x y, e.cause = .mismatch (.char x) y) := by
  cases h with
  | @charOther x y rest hr hne =>
    by_cases hb : c.options.bumpOnMismatch = true
    · exact .inr ⟨if_pos hb, hb, x, y, rfl⟩
    · exact .inl (if_neg hb)
  | _ => exact .inl rfl

theorem index_eq (h : c.Explains e) : e.position.index = c.position.index := by
  rcases h.position_eq with hp | ⟨hp, -, -⟩
  · rw [hp]
  · rw [hp, Position.bumpColumn]

theorem head_of_mismatch (h : c.Explains e) {w : Wanted} {y : Char} (hc : e.cause = .mismatch w y) :
    c.head? = some y := by
  cases h with
  | charOther hr _ | classOther _ hr _ | endOther hr =>
    cases hc
    rw [head?, remaining_eq hr, List.head?_cons]
  | _ => cases hc

theorem empty_of_endReached (h : c.Explains e) {w : Wanted} {n : String}
    (hc : e.cause = .endReached w n) : c.remaining? = some [] ∧ n = c.position.stream := by
  cases h with
  | charEnd _ hr | classEnd _ _ hr =>
    cases hc
    exact ⟨hr, rfl⟩
  | _ => cases hc

end Explains

/-- One of the library's parsers that fail by themselves fails on `c` with the error `e`. The nest
limit is met on the level of the parser that meets it, which may be deeper than `c`. -/
inductive Raises (c : Context σ) (e : LocatedError) : Prop where
  | char (x : Char) {t : List Event} (h : Parser.char x c = ⟨t, .ok (c.failWith (.located e))⟩)
  | notChar (x : Char) (h : Parser.notChar x c = pure (c.failWith (.located e)))
  | satisfy (label : String) (p : Char → Bool)
      (h : Parser.satisfy label p c = pure (c.failWith (.located e)))
  | endOfStream (h : Parser.endOfStream c = pure (c.failWith (.located e)))
  | noChoice (h : (Parser.choice [] : Parser σ Char) c = pure (c.failWith (.located e)))
  | charsUntil (x : Char) (h : Parser.charsUntil x c = pure (c.failWith (.located e)))
  | pattern (p : Pattern) (h : Parser.pattern p c = pure (c.failWith (.located e)))
  | nested (level : Nat) {t : List Event} (hl : c.nestLevel ≤ level)
      (h : Parser.nested Parser.state (c.withLevel level) =
        ⟨t, .ok ((c.withLevel level).failWith (.located e))⟩)

theorem Explains.raises (h : c.Explains e) : c.Raises e := by
  cases h with
  | charEnd x hr => exact .char x (Parser.char_nil hr x)
  | @charOther x y rest hr hne => exact .char x (Parser.char_other hr hne)
  | @notChar x rest hr => exact .notChar x (Parser.notChar_self hr)
  | classEnd label p hr => exact .satisfy label p (Parser.satisfy_nil hr)
  | @classOther label p _ _ hr hp => exact .satisfy label p (Parser.satisfy_of_false hr hp)
  | endOther hr => exact .endOfStream (Parser.endOfStream_cons hr)
  | noChoice => exact .noChoice rfl
  | @emptyRun x text hr hw =>
    refine .charsUntil x ?_
    rw [Parser.charsUntil_eq hr, if_pos hw]
    rfl
  | patternEnd p he => exact .pattern p (Parser.pattern_of_isEmpty he p)
  | patternOther he hr hm => exact .pattern _ (Parser.pattern_of_none he hr hm)
  | @nestLimit level hl ho =>
    exact .nested level hl (Parser.nested_of_limit (c := c.withLevel level) ho)

def Locates (c f : Context σ) (e : ParseError) : Prop :=
  ∃ s k j err, f = (c.withState s).advance k ∧ k ≤ j ∧ j ≤ c.remaining.length ∧
    e = .located err ∧ (c.advance j).Explains err

namespace Locates

variable {err : ParseError}

theorem here (h : c.Explains e) : c.Locates c (.located e) :=
  ⟨c.state, 0, 0, e, by simp, Nat.le_refl _, Nat.zero_le _, rfl, by simpa using h⟩

theorem from_start (h : c.Locates f err) : c.Locates c err := by
  obtain ⟨s, k, j, e, -, -, hj, he, hex⟩ := h
  exact ⟨c.state, 0, j, e, by simp, Nat.zero_le _, hj, he, hex⟩

theorem of_reaches (hcd : c.Reaches d) (h : d.Locates f err) : c.Locates f err := by
  obtain ⟨s, m, hm, rfl⟩ := hcd
  obtain ⟨s', k, j, e, rfl, hkj, hj, he, hex⟩ := h
  have hplace : ((c.withState s).advance m).advance j = (c.advance (m + j)).withState s := by
    rw [Context.advance_advance, advance_withState]
  rw [hplace] at hex
  refine ⟨s', m + k, m + j, e, ?_, by omega, ?_, he, hex.of_withState⟩
  · calc (((c.withState s).advance m).withState s').advance k
        = ((c.advance m).advance k).withState s' := rfl
      _ = (c.withState s').advance (m + k) := by rw [advance_advance, advance_withState]
  · simp only [remaining_advance, remaining_withState, List.length_drop] at hj
    omega

theorem of_withLevel {l : Nat} (hl : c.nestLevel ≤ l) (h : (c.withLevel l).Locates f err) :
    c.Locates (f.withLevel c.nestLevel) err := by
  obtain ⟨s, k, j, e, rfl, hkj, hj, he, hex⟩ := h
  rw [advance_withLevel] at hex
  exact ⟨s, k, j, e, rfl, hkj, hj, he, hex.of_withLevel hl⟩

end Locates

end Context

namespace Grammar

variable {ρ : Type} {τ : ρ → Type} {σ α : Type} {rules : (r : ρ) → Grammar Empty τ σ (τ r)}
variable {g : Grammar Empty τ σ α} {c f : Context σ} {t : List Event} {o : Outcome σ α}

theorem Yields.locates (h : Yields rules g c t o) {e : ParseError} (he : o.error? = some e) :
    c.Locates o.context e := by
  induction h generalizing e with
  | charFound | notCharOther | satisfyFound | endFound | just | state | update | skipSpaces
  | charsUntilRun | patternFound | orFirst | pairBoth | manyFailed | manyStayed | manyMoved
  | many1Found | optionalFound | optionalFailed => cases he
  | charEnd hr =>
    cases he
    exact .here (.charEnd _ hr)
  | charOther hr hne =>
    cases he
    exact .here (.charOther hr hne)
  | notCharEnd hr =>
    cases he
    exact .here (.charEnd _ hr)
  | notCharFound hr =>
    cases he
    exact .here (.notChar hr)
  | @satisfyEnd label p _ hr =>
    cases he
    exact .here (.classEnd label p hr)
  | satisfyOther hr hp =>
    cases he
    exact .here (.classOther _ hr hp)
  | endOther hr =>
    cases he
    exact .here (.endOther hr)
  | noChoice =>
    cases he
    exact .here .noChoice
  | charsUntilEmpty hr hw =>
    cases he
    exact .here (.emptyRun hr hw)
  | patternEnd hempty =>
    cases he
    exact .here (.patternEnd _ hempty)
  | patternOther hempty hr hm =>
    cases he
    exact .here (.patternOther hempty hr hm)
  | nestedRefused hl =>
    cases he
    exact .here (.nestLimit (Nat.le_refl _) hl)
  | orSecond _ _ _ ihb => exact ihb he
  | pairFirst _ iha =>
    cases he
    exact (iha rfl).from_start
  | pairSecond ha _ _ ihb =>
    cases he
    exact ((ihb rfl).of_reaches ha.reaches).from_start
  | andThenFirst _ iha =>
    cases he
    exact iha rfl
  | andThenBoth ha _ _ ihb =>
    rw [Outcome.error?_map] at he
    rw [Outcome.context_map]
    exact (ihb he).of_reaches ha.reaches
  | map _ ih =>
    rw [Outcome.error?_map] at he
    rw [Outcome.context_map]
    exact ih he
  | many1Failed _ iha =>
    cases he
    exact iha rfl
  | nestedAllowed _ _ ih =>
    rw [Outcome.error?_withLevel] at he
    rw [Outcome.context_withLevel]
    exact (ih he).of_withLevel (Nat.le_succ _)
  | ref _ ih => exact ih he

/-- The error of a failure was raised `j` characters after the start by a parser that fails by
itself, and tells the truth about that place, which does not lie before the failure's context. -/
theorem run_error_located {depth : Nat} {e : ParseError}
    (h : run rules depth g c = ⟨t, .ok (.failure e f)⟩) :
    ∃ s k j err, f = (c.withState s).advance k ∧ k ≤ j ∧ j ≤ c.remaining.length ∧
      e = .located err ∧ (c.advance j).Raises err ∧
      (err.position = (c.advance j).position ∨
        (err.position = (c.advance j).position.bumpColumn ∧ c.options.bumpOnMismatch = true ∧
          ∃ x y, err.cause = .mismatch (.char x) y)) ∧
      (∀ w y, err.cause = .mismatch w y → (c.advance j).head? = some y) ∧
      (∀ w n, err.cause = .endReached w n →
        (c.advance j).remaining? = some [] ∧ n = c.position.stream) ∧
      f.position.index ≤ err.position.index := by
  obtain ⟨s, k, j, err, rfl, hkj, hj, rfl, hex⟩ := (yields_of_run h).locates rfl
  refine ⟨s, k, j, err, rfl, hkj, hj, rfl, hex.raises, hex.position_eq, ?_, ?_, ?_⟩
  · exact fun w y hc => hex.head_of_mismatch hc
  · intro w n hc
    obtain ⟨hempty, hn⟩ := hex.empty_of_endReached hc
    exact ⟨hempty, hn.trans (Position.advance_stream _ _)⟩
  · rw [hex.index_eq]
    simp only [Context.position_advance, Position.advance_index, List.length_take,
      Context.remaining_withState]
    show c.position.index + min k c.remaining.length ≤ c.position.index + min j c.remaining.length
    omega

/-- The failure stands after the first bracket, the error past the pair that was read after it. -/
theorem between_error_located : ∃ t e f,
    run parens 2 (between (char '(') (pair (ref ()) (char 'b')) (char ')'))
      (Context.start ['(', '(', ')', 'c'] ()) = ⟨t, .ok (.failure e f)⟩ ∧
    f.position.index = 1 ∧ e.position?.map Position.index = some 3 ∧
    ∃ s k j err, f = ((Context.start ['(', '(', ')', 'c'] ()).withState s).advance k ∧ k ≤ j ∧
      j ≤ 4 ∧ e = .located err ∧ ((Context.start ['(', '(', ')', 'c'] ()).advance j).Raises err := by
  have ran : run parens 2 (between (char '(') (pair (ref ()) (char 'b')) (char ')'))
      (Context.start ['(', '(', ')', 'c'] ()) = ⟨_, .ok (.failure _ _)⟩ := rfl
  obtain ⟨s, k, j, err, hf, hkj, hj, he, hraised, -⟩ := run_error_located ran
  refine ⟨_, _, _, ran, rfl, rfl, ?_⟩
  exact ⟨s, k, j, err, hf, hkj, hj, he, hraised⟩

end Grammar

end StreamParser
