import StreamParser.Proofs.Depth

/-!
# The longest run without a delimiter

The text up to a delimiter is the longest first part in which the delimiter does not occur. It is read as a
whole, or character by character by a repetition of the parser that takes all characters but the delimiter.
Either way each character that is taken is logged, in its place, as not being the delimiter.
-/

namespace StreamParser

namespace Parser

variable {σ : Type} {c : Context σ} {x : Char} {run rest text : List Char}

theorem prefix_without_iff {p : List Char} : p <+: without x text ↔ p <+: text ∧ x ∉ p := by
  constructor
  · intro hp
    refine ⟨hp.trans (List.takeWhile_prefix _), fun hx => ?_⟩
    exact not_mem_without x text (hp.subset hx)
  · rintro ⟨⟨rest, rfl⟩, hx⟩
    have hpass : ∀ y ∈ p, decide (y ≠ x) = true := fun y hy => decide_eq_true fun heq => hx (heq ▸ hy)
    rw [without, List.takeWhile_append_of_pos hpass]
    exact List.prefix_append p _

theorem mismatches_eq_mapIdx (h : c.remaining? = some (run ++ rest)) :
    mismatches x c.position run = run.mapIdx fun i y => .mismatch x y (c.advance i).position := by
  induction run generalizing c with
  | nil => rfl
  | cons y run ih =>
    have hstep (i : Nat) : (c.consume [y]).advance i = c.advance (i + 1) := by
      rw [Context.consume_head_eq_advance h, Context.advance_advance, Nat.add_comm]
    have hrest := ih (Context.remaining?_consume_head h)
    simp only [hstep] at hrest
    rw [List.mapIdx_cons, Context.advance_zero, mismatches, ← hrest]
    rfl

theorem many_notChar (h : c.remaining? = some text) :
    many (notChar x) c = ⟨mismatches x c.position (without x text),
      .ok (.success (without x text) (c.consume (without x text)))⟩ := by
  induction text generalizing c with
  | nil =>
    have hnone : without x [] = [] := rfl
    rw [hnone, Context.consume_nil]
    exact many_of_failure (notChar_nil h x)
  | cons y text ih =>
    by_cases hy : y = x
    · subst hy
      rw [without_self, Context.consume_nil]
      exact many_of_failure (notChar_self h)
    · have hsplit : c.remaining? = some ([y] ++ text) := h
      have hrest := ih (Context.remaining?_consume_head h)
      have hall : c.consume (y :: without x text) = (c.consume [y]).consume (without x text) :=
        Context.consume_append c [y] (without x text)
      rw [without_other hy, hall]
      exact many_of_consume hsplit (List.cons_ne_nil y []) (notChar_other h hy) hrest

/-- The first character is taken as the others are, since all are taken with progress. -/
theorem many1_notChar_eq_many (h : c.remaining? = some text) (hne : without x text ≠ []) :
    many1 (notChar x) c = many (notChar x) c := by
  cases text with
  | nil => exact absurd rfl hne
  | cons y text =>
    have hy : y ≠ x := by
      rintro rfl
      exact hne (without_self y text)
    have hsplit : c.remaining? = some ([y] ++ text) := h
    have hrest := many_notChar (x := x) (Context.remaining?_consume_head h)
    rw [many1_of_success (notChar_other h hy) hrest,
      many_of_consume hsplit (List.cons_ne_nil y []) (notChar_other h hy) hrest]

theorem notChar_fails_of_without_nil (h : c.remaining? = some text) (hnil : without x text = []) :
    ∃ e, notChar x c = pure (.failure e c) := by
  cases text with
  | nil => exact ⟨_, notChar_nil h x⟩
  | cons y text =>
    by_cases hy : y = x
    · subst hy
      exact ⟨_, notChar_self h⟩
    · rw [without_other hy] at hnil
      exact absurd hnil (List.cons_ne_nil y _)

/-- The text up to the delimiter is taken if there is any, and it is what the repetition of single characters
takes. Both log the same, each character as a mismatch in its place, and both fail where there is none. -/
theorem charsUntil_takes_longest_run (x : Char) {c : Context σ} {text : List Char}
    (h : c.remaining? = some text) :
    let run := without x text
    let d := c.advance run.length
    let logged : List Event := run.mapIdx fun i y => .mismatch x y (c.advance i).position
    (∀ p, p <+: run ↔ p <+: text ∧ x ∉ p) ∧
    (run ≠ [] →
      charsUntil x c = ⟨logged, .ok (.success (String.ofList run) d)⟩ ∧
      many1 (notChar x) c = ⟨logged, .ok (.success run d)⟩ ∧
      (d.remaining? = some [] ∨ ∃ rest, d.remaining? = some (x :: rest))) ∧
    (run = [] →
      charsUntil x c = pure (c.fail (.emptyRun x)) ∧
      ∃ e, many1 (notChar x) c = pure (.failure e c)) := by
  intro run d logged
  have hsplit : c.remaining? = some (run ++ text.dropWhile (· ≠ x)) := by
    rw [h, without_append_dropWhile]
  refine ⟨fun p => prefix_without_iff, fun hne => ⟨?_, ?_, ?_⟩, fun hnil => ⟨?_, ?_⟩⟩
  · rw [charsUntil_eq h, if_neg hne, mismatches_eq_mapIdx hsplit, Context.consume_eq_advance hsplit]
  · rw [many1_notChar_eq_many h hne, many_notChar h, mismatches_eq_mapIdx hsplit,
      Context.consume_eq_advance hsplit]
  · have hd : d.remaining? = some (text.dropWhile (· ≠ x)) := by
      rw [Context.remaining?_advance, hsplit, Option.map_some, List.drop_left]
    cases hrest : text.dropWhile (· ≠ x) with
    | nil => exact .inl (hd.trans (congrArg some hrest))
    | cons y rest =>
      have hhead : y ∈ (text.dropWhile (· ≠ x)).head? := by
        rw [hrest]
        rfl
      obtain rfl : y = x := eq_of_mem_head?_dropWhile hhead
      exact .inr ⟨rest, hd.trans (congrArg some hrest)⟩
  · rw [charsUntil_eq h, if_pos hnil]
  · obtain ⟨e, he⟩ := notChar_fails_of_without_nil h hnil
    exact ⟨e, many1_of_failure he⟩

/-- A newline and a character of two bytes are taken like any other; behind the comma there is nothing to
take. -/
theorem charsUntil_comma_takes_run :
    let c := Context.start ['é', '\n', 'a', ',', 'b'] ()
    let d := Context.start [',', 'b'] ()
    let logged : List Event := [.mismatch ',' 'é' ⟨"Character Stream", 0, 1, 0⟩,
      .mismatch ',' '\n' ⟨"Character Stream", 1, 1, 1⟩, .mismatch ',' 'a' ⟨"Character Stream", 2, 2, 0⟩]
    c.remaining? = some ['é', '\n', 'a', ',', 'b'] ∧
    charsUntil ',' c = ⟨logged, .ok (.success "é\na" (c.advance 3))⟩ ∧
    many1 (notChar ',') c = ⟨logged, .ok (.success ['é', '\n', 'a'] (c.advance 3))⟩ ∧
    d.remaining? = some [',', 'b'] ∧
    charsUntil ',' d = pure (d.fail (.emptyRun ',')) ∧
    ∃ e, many1 (notChar ',') d = pure (.failure e d) := by
  intro c d logged
  have hc : c.remaining? = some ['é', '\n', 'a', ',', 'b'] := rfl
  have hd : d.remaining? = some [',', 'b'] := rfl
  obtain ⟨-, hrun, -⟩ := charsUntil_takes_longest_run ',' hc
  obtain ⟨-, -, hnone⟩ := charsUntil_takes_longest_run ',' hd
  obtain ⟨hwhole, hsingle, -⟩ := hrun (by decide)
  exact ⟨hc, hwhole, hsingle, hd, hnone rfl⟩

end Parser

end StreamParser
