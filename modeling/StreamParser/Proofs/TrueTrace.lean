import StreamParser.Proofs.Coherence

/-!
# Traces tell the truth

Every event of a run was logged at a place in what remained to be read, and that place bears it out:
another character than the expected one stands there, or the limit it names is in force. This holds of
the events of abandoned branches as well, as each part runs on a context that is reached from the start.
-/

namespace StreamParser

variable {σ α : Type}

namespace Context

variable {c d : Context σ} {e : Event} {t u : List Event}

inductive BearsOut (c : Context σ) : Event → Prop where
  | mismatch {x y : Char} {rest : List Char} (hr : c.remaining? = some (y :: rest)) (hne : y ≠ x) :
      BearsOut c (.mismatch x y c.position)
  | fallback : BearsOut c (.fallback c.position)
  | nestLimit {level : Nat} (ho : c.options.nestLimit = some level) :
      BearsOut c (.nestLimit level c.position)

def Vouches (c : Context σ) (t : List Event) : Prop :=
  ∀ e ∈ t, ∃ j ≤ c.remaining.length, (c.advance j).BearsOut e

theorem BearsOut.of_withState_withLevel {s : σ} {l : Nat}
    (h : ((c.withState s).withLevel l).BearsOut e) : c.BearsOut e := by
  cases h with
  | mismatch hr hne => exact .mismatch hr hne
  | fallback => exact .fallback
  | nestLimit ho => exact .nestLimit ho

namespace Vouches

theorem nil (c : Context σ) : c.Vouches [] := by
  intro e he
  cases he

theorem cons (he : c.BearsOut e) (ht : c.Vouches t) : c.Vouches (e :: t) := by
  intro e' he'
  rcases List.mem_cons.mp he' with rfl | he'
  · have hhere : (c.advance 0).BearsOut e' := by rwa [advance_zero]
    exact ⟨0, Nat.zero_le _, hhere⟩
  · exact ht e' he'

theorem single (he : c.BearsOut e) : c.Vouches [e] := .cons he (.nil c)

theorem append (ht : c.Vouches t) (hu : c.Vouches u) : c.Vouches (t ++ u) := by
  intro e he
  rcases List.mem_append.mp he with he | he
  · exact ht e he
  · exact hu e he

theorem of_reaches (hcd : c.Reaches d) (h : d.Vouches t) : c.Vouches t := by
  intro e he
  obtain ⟨j, hj, hout⟩ := h e he
  obtain ⟨s, k, hk, rfl⟩ := hcd
  have hplace : ((c.withState s).advance k).advance j =
      ((c.advance (k + j)).withState s).withLevel c.nestLevel := by
    rw [advance_advance, advance_withState]
    rfl
  rw [hplace] at hout
  simp only [remaining_advance, remaining_withState, List.length_drop] at hj
  exact ⟨k + j, by omega, hout.of_withState_withLevel⟩

theorem of_withLevel {l : Nat} (h : (c.withLevel l).Vouches t) : c.Vouches t := by
  intro e he
  obtain ⟨j, hj, hout⟩ := h e he
  have hplace : (c.withLevel l).advance j =
    ((c.advance j).withState c.state).withLevel l := advance_withLevel c l j
  rw [hplace] at hout
  exact ⟨j, hj, hout.of_withState_withLevel⟩

theorem mismatches {x : Char} {run rest : List Char} (hr : c.remaining? = some (run ++ rest))
    (hx : x ∉ run) : c.Vouches (Parser.mismatches x c.position run) := by
  induction run generalizing c with
  | nil => exact .nil c
  | cons y run ih =>
    have hsplit : c.remaining? = some ([y] ++ (run ++ rest)) := hr
    have hne : y ≠ x := fun heq => hx (heq ▸ List.mem_cons_self)
    have hlater : (c.consume [y]).Vouches (Parser.mismatches x (c.consume [y]).position run) :=
      ih (remaining?_consume hsplit) fun hmem => hx (List.mem_cons_of_mem y hmem)
    exact .cons (.mismatch hr hne) (.of_reaches (.consume hsplit) hlater)

end Vouches

end Context

namespace Grammar

variable {ρ : Type} {τ : ρ → Type} {rules : (r : ρ) → Grammar Empty τ σ (τ r)}
variable {g : Grammar Empty τ σ α} {c : Context σ} {t : List Event} {o : Outcome σ α}

theorem Yields.vouches (h : Yields rules g c t o) : c.Vouches t := by
  induction h with
  | charEnd | charFound | notCharEnd | notCharFound | satisfyEnd | satisfyFound | satisfyOther
  | endFound | endOther | noChoice | just | state | update | skipSpaces | charsUntilEmpty
  | patternEnd | patternFound | patternOther => exact .nil _
  | charOther hr hne => exact .single (.mismatch hr hne)
  | notCharOther hr hne => exact .single (.mismatch hr hne)
  | @charsUntilRun x c text hr _ =>
    rw [← Parser.without_append_dropWhile x text] at hr
    exact .mismatches hr (Parser.not_mem_without x text)
  | orFirst _ ih => exact ih
  | orSecond _ _ iha ihb => exact .append iha (.cons .fallback ihb)
  | pairFirst _ ih => exact ih
  | pairSecond ha _ iha ihb => exact .append iha (.of_reaches ha.reaches ihb)
  | pairBoth ha _ iha ihb => exact .append iha (.of_reaches ha.reaches ihb)
  | andThenFirst _ ih => exact ih
  | andThenBoth ha _ iha ihb => exact .append iha (.of_reaches ha.reaches ihb)
  | map _ ih => exact ih
  | manyFailed _ ih => exact ih
  | manyStayed _ _ ih => exact ih
  | manyMoved ha _ _ iha ihrest => exact .append iha (.of_reaches ha.reaches ihrest)
  | many1Failed _ ih => exact ih
  | many1Found ha _ iha ihrest => exact .append iha (.of_reaches ha.reaches ihrest)
  | optionalFound _ ih => exact ih
  | optionalFailed _ ih => exact ih
  | nestedRefused hl => exact .single (.nestLimit hl)
  | nestedAllowed _ _ ih => exact .of_withLevel ih
  | ref _ ih => exact ih

/-- Every event names a place `j` characters after the start, unbumped; a mismatch names the character
that stands there, which is not the one expected; a refusal to nest names the limit in force. -/
theorem run_trace_true {depth : Nat} (h : run rules depth g c = ⟨t, .ok o⟩) :
    ∀ e ∈ t, ∃ j ≤ c.remaining.length, e.place = (c.advance j).position ∧
      (∀ x y p, e = .mismatch x y p → (c.advance j).head? = some y ∧ x ≠ y) ∧
      (∀ n p, e = .nestLimit n p → c.options.nestLimit = some n) := by
  intro e he
  obtain ⟨j, hj, hout⟩ := (yields_of_run h).vouches e he
  refine ⟨j, hj, ?_⟩
  cases hout with
  | @mismatch x y rest hr hne =>
    have hhead : (c.advance j).head? = some y := by
      rw [Context.head?, Context.remaining_eq hr, List.head?_cons]
    refine ⟨rfl, ?_, ?_⟩
    · intro x' y' p heq
      cases heq
      exact ⟨hhead, hne.symm⟩
    · intro n p heq
      cases heq
  | fallback =>
    refine ⟨rfl, ?_, ?_⟩
    · intro x y p heq
      cases heq
    · intro n p heq
      cases heq
  | nestLimit ho =>
    refine ⟨rfl, ?_, ?_⟩
    · intro x y p heq
      cases heq
    · intro n p heq
      cases heq
      exact ho

def nestedOrUntil : Unit → Grammar Empty (fun _ : Unit => List Char) σ (List Char) := fun _ =>
  or (between (char '(') (nested (ref ())) (char ')')) (many1 (notChar ')'))

/-- A refused level, a fallback from an abandoned branch, and a mismatch on the next line. -/
theorem nestedOrUntil_trace_true :
    let c := (Context.start ['(', '(', '\n', 'a', ')'] ()).withOptions ⟨some 1, true⟩
    let t := (run nestedOrUntil 3 (ref ()) c).trace
    (∃ o, run nestedOrUntil 3 (ref ()) c = ⟨t, .ok o⟩) ∧
    .nestLimit 1 ⟨defaultStream, 2, 1, 2⟩ ∈ t ∧ .fallback ⟨defaultStream, 1, 1, 1⟩ ∈ t ∧
    .mismatch ')' 'a' ⟨defaultStream, 3, 2, 0⟩ ∈ t ∧
    ∀ e ∈ t, ∃ j ≤ 5, e.place = (c.advance j).position ∧
      (∀ x y p, e = .mismatch x y p → (c.advance j).head? = some y ∧ x ≠ y) ∧
      (∀ n p, e = .nestLimit n p → c.options.nestLimit = some n) := by
  intro c t
  have hends : (run nestedOrUntil 3 (ref ()) c).result.isOk = true := by decide +kernel
  obtain ⟨o, ran⟩ := Run.exists_of_isOk hends
  exact ⟨⟨o, ran⟩, by decide +kernel, by decide +kernel, by decide +kernel, run_trace_true ran⟩

end Grammar

end StreamParser
