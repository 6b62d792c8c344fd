import StreamParser.Proofs.Evaluation

/-!
# A state that records what is read

Where every character is consumed together with its record in the state, the state of an outcome is
the one at the start, followed by the characters in between. What an abandoned branch has recorded is
gone; what leads to the outcome is recorded once and in order, also where a failure has moved on.
-/

namespace StreamParser

namespace Context

variable {c d e : Context (List Char)}

/-- `d` is `c` after some of what remains, and these characters are appended to the state. -/
def Records (c d : Context (List Char)) : Prop :=
  ∃ taken, c.remaining = taken ++ d.remaining ∧ d = (c.consume taken).withState (c.state ++ taken)

namespace Records

theorem refl (c : Context (List Char)) : c.Records c :=
  ⟨[], rfl, by rw [consume_nil, List.append_nil, withState_self]⟩

theorem trans (hcd : c.Records d) (hde : d.Records e) : c.Records e := by
  obtain ⟨v, hv, hd⟩ := hcd
  obtain ⟨w, hw, he⟩ := hde
  refine ⟨v ++ w, ?_, ?_⟩
  · rw [hv, hw, List.append_assoc]
  · have hstate : d.state = c.state ++ v := by rw [hd]; rfl
    have hplace : d.consume w = ((c.consume v).consume w).withState d.state := by rw [hd]; rfl
    rw [he, hplace, hstate, withState_withState, consume_append, List.append_assoc]

theorem ofLevel {l : Nat} (h : (c.withLevel l).Records d) : c.Records (d.withLevel c.nestLevel) := by
  obtain ⟨w, hw, rfl⟩ := h
  exact ⟨w, hw, rfl⟩

theorem head {x : Char} {rest : List Char} (hr : c.remaining? = some (x :: rest)) :
    c.Records ((c.consume [x]).withState (c.state ++ [x])) :=
  ⟨[x], remaining_eq_cons hr, rfl⟩

end Records

end Context

namespace Grammar

variable {κ ρ : Type} {τ : ρ → Type} {α : Type}

def RecordsOne : {α : Type} → Grammar κ τ (List Char) α → Prop
  | _, pair (char x) (update f) => f = fun s => s ++ [x]
  | _, _ => False

/-- Nothing is consumed but by parts that record it, and nothing else changes the state. -/
def Recording : {α : Type} → Grammar κ τ (List Char) α → Prop
  | _, endOfStream | _, noChoice | _, just _ | _, ref _ => True
  | _, or a b => a.Recording ∧ b.Recording
  | _, pair a b => a.Recording ∧ b.Recording
  | _, andThen a b => a.Recording ∧ b.Recording
  | _, map _ a => a.Recording ∨ a.RecordsOne
  | _, many a => a.Recording
  | _, many1 a => a.Recording
  | _, optional a => a.Recording
  | _, nested a => a.Recording
  | _, _ => False

def recorded (x : Char) : Grammar κ τ (List Char) Char :=
  terminated (char x) (update fun s => s ++ [x])

theorem recording_recorded (x : Char) :
    (recorded x : Grammar κ τ (List Char) Char).Recording := .inr rfl

theorem recording_foldl_or (a : Grammar κ τ (List Char) α) (as : List (Grammar κ τ (List Char) α)) :
    (as.foldl or a).Recording ↔ a.Recording ∧ ∀ b ∈ as, b.Recording := by
  induction as generalizing a with
  | nil => simp
  | cons b as ih =>
    rw [List.foldl_cons, ih, List.forall_mem_cons, ← and_assoc]
    rfl

theorem recording_choice (as : List (Grammar κ τ (List Char) α)) :
    (choice as).Recording ↔ ∀ a ∈ as, a.Recording := by
  cases as with
  | nil => simp [choice, Recording]
  | cons a as => rw [List.forall_mem_cons, ← recording_foldl_or, choice]

theorem recording_sequence {as : List (Grammar κ τ (List Char) α)} (h : ∀ a ∈ as, a.Recording) :
    (sequence as).Recording := by
  induction as with
  | nil => trivial
  | cons a as ih =>
    obtain ⟨ha, has⟩ := List.forall_mem_cons.mp h
    exact .inl ⟨ha, ih has⟩

theorem recording_between {β γ : Type} {left : Grammar κ τ (List Char) α}
    {middle : Grammar κ τ (List Char) β} {right : Grammar κ τ (List Char) γ} (hl : left.Recording)
    (hm : middle.Recording) (hr : right.Recording) : (between left middle right).Recording :=
  .inl ⟨hl, .inl ⟨hm, hr⟩⟩

variable {rules : (r : ρ) → Grammar Empty τ (List Char) (τ r)}
variable {g : Grammar Empty τ (List Char) α} {c : Context (List Char)} {t : List Event}
variable {o : Outcome (List Char) α}

theorem Yields.records_one (h : Yields rules g c t o) (hg : g.RecordsOne) :
    c.Records o.context := by
  cases h with
  | pairFirst _ => exact .refl c
  | pairSecond _ _ => exact .refl c
  | @pairBoth _ _ _ _ _ d d' _ _ v w ha hb =>
    -- the parts are known only from `hg`, so their outcomes are kept apart while they are found
    generalize hv : Outcome.success v d = oa at ha
    generalize hw : Outcome.success w d' = ob at hb
    cases ha with
    | charEnd _ => cases hv
    | charOther _ _ => cases hv
    | @charFound x _ rest hr =>
      cases hb with
      | @update f =>
        have hf : f = fun s => s ++ [x] := hg
        cases hv
        cases hw
        rw [hf]
        exact .head hr
      | _ => exact hg.elim
    | _ => exact hg.elim
  | _ => exact hg.elim

theorem Yields.records (h : Yields rules g c t o) (hrules : ∀ r, (rules r).Recording)
    (hg : g.Recording) : c.Records o.context := by
  induction h with
  | charEnd | charFound | charOther | notCharEnd | notCharFound | notCharOther | satisfyEnd
  | satisfyFound | satisfyOther | state | update | skipSpaces | charsUntilEmpty | charsUntilRun
  | patternEnd | patternFound | patternOther => exact hg.elim
  | endFound | endOther | noChoice | just | nestedRefused | pairFirst | pairSecond | manyFailed
  | manyStayed | optionalFailed => exact .refl _
  | orFirst _ ih => exact ih hg.1
  | orSecond _ _ _ ih => exact ih hg.2
  | pairBoth _ _ iha ihb => exact (iha hg.1).trans (ihb hg.2)
  | andThenFirst _ ih => exact ih hg.1
  | andThenBoth _ _ iha ihb =>
    rw [Outcome.context_map]
    exact (iha hg.1).trans (ihb hg.2)
  | map ha ih =>
    rw [Outcome.context_map]
    rcases hg with hg | hone
    · exact ih hg
    · exact ha.records_one hone
  | manyMoved _ _ _ iha ihrest => exact (iha hg).trans (ihrest hg)
  | many1Failed _ ih => exact ih hg
  | many1Found _ _ iha ihrest => exact (iha hg).trans (ihrest hg)
  | optionalFound _ ih => exact ih hg
  | nestedAllowed _ _ ih =>
    rw [Outcome.context_withLevel]
    exact .ofLevel (ih hg)
  | ref _ ih => exact ih (hrules _)

/-- The context of an outcome is the one at the start after the characters `taken`, and these are
what the state has gained, whether the outcome is a success or a failure. -/
theorem run_records_taken {depth : Nat} (hrules : ∀ r, (rules r).Recording) (hg : g.Recording)
    (h : run rules depth g c = ⟨t, .ok o⟩) :
    ∃ taken, c.remaining = taken ++ o.context.remaining ∧
      o.context = (c.consume taken).withState (c.state ++ taken) :=
  (yields_of_run h).records hrules hg

def recordedParens : Unit → Grammar Empty (fun _ : Unit => Nat) (List Char) Nat := fun _ =>
  or (map (· + 1) (between (recorded '(') (nested (ref ())) (recorded ')'))) (just 0)

/-- Two brackets or balanced ones, then `x` and `y`. -/
def parensThenLetters : Grammar Empty (fun _ : Unit => Nat) (List Char) (Nat × List Char) :=
  andThen (choice [map List.length (sequence [recorded '(', recorded '(']), ref ()])
    (sequence [recorded 'x', recorded 'y'])

/-- The bracket that the first alternative recorded is gone when the second one records it again; the
`x` before the failure stays. -/
theorem parensThenLetters_records_taken :
    (∀ r, (recordedParens r).Recording) ∧ parensThenLetters.Recording ∧
    ∃ t o, run recordedParens 3 parensThenLetters (Context.start ['(', ')', 'x', 'z'] ['!']) =
        ⟨t, .ok o⟩ ∧
      o.isSuccess = false ∧ o.context.state = ['!', '(', ')', 'x'] ∧
      ∃ taken, ['(', ')', 'x', 'z'] = taken ++ o.context.remaining ∧
        o.context = ((Context.start ['(', ')', 'x', 'z'] ['!']).consume taken).withState
          (['!'] ++ taken) := by
  have hinner : (nested (ref ()) : Grammar Empty (fun _ : Unit => Nat) (List Char) Nat).Recording :=
    trivial
  have hrules (r : Unit) : (recordedParens r).Recording :=
    ⟨.inl (recording_between (recording_recorded '(') hinner (recording_recorded ')')), trivial⟩
  have htwo (x y : Char) : (sequence [recorded x, recorded y] :
      Grammar Empty (fun _ : Unit => Nat) (List Char) (List Char)).Recording := by
    apply recording_sequence
    simp [recording_recorded]
  have hfirst : (choice [map List.length (sequence [recorded '(', recorded '(']), ref ()] :
      Grammar Empty (fun _ : Unit => Nat) (List Char) Nat).Recording :=
    (recording_choice _).mpr
      (List.forall_mem_cons.mpr ⟨.inl (htwo '(' '('), List.forall_mem_singleton.mpr trivial⟩)
  have hgrammar : parensThenLetters.Recording := ⟨hfirst, htwo 'x' 'y'⟩
  have ran : run recordedParens 3 parensThenLetters (Context.start ['(', ')', 'x', 'z'] ['!']) =
    ⟨_, .ok _⟩ := rfl
  exact ⟨hrules, hgrammar, _, _, ran, rfl, rfl, run_records_taken hrules hgrammar ran⟩

end Grammar

end StreamParser
