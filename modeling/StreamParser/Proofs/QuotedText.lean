import StreamParser.Proofs.Pairing
import StreamParser.Proofs.Takes

/-!
# Text between two delimiters

A run of text between an opening and a closing delimiter is read exactly where one is written: the opening
delimiter, then a text that is not empty and does not hold the closing one, then the closing one. Any other
text is refused, where it stands if it does not open and behind the opening delimiter if it does.
-/

namespace StreamParser

namespace Parser

variable {σ α β : Type} {c d : Context σ} {t : List Event} {e : ParseError} {x y : Char}
variable {text : List Char}

theorem charsUntil_refuses (h : without x text = []) : (charsUntil x : Parser σ String).Refuses text := by
  intro c hc
  exact ⟨[], _, c, (charsUntil_eq hc).trans (if_pos h)⟩

theorem closed_refuses (h : ¬ ∃ run rest, run ≠ [] ∧ x ∉ run ∧ text = run ++ x :: rest) :
    (terminated (charsUntil x) (char x) : Parser σ String).Refuses text := by
  by_cases hempty : without x text = []
  · exact (charsUntil_refuses hempty).pair_first.map
  · have hrest : ∀ z ∈ (text.dropWhile (· ≠ x)).head?, z = x := fun _ => eq_of_mem_head?_dropWhile
    have hopen : (text.dropWhile (· ≠ x)).head? ≠ some x := by
      intro hhead
      obtain ⟨rest, hsplit⟩ := List.head?_eq_some_iff.mp hhead
      apply h
      refine ⟨without x text, rest, hempty, not_mem_without x text, ?_⟩
      rw [← hsplit, without_append_dropWhile]
    have htakes : (charsUntil x : Parser σ String).Takes (without x text)
        (String.ofList (without x text)) (text.dropWhile (· ≠ x)) :=
      .charsUntil hempty (not_mem_without x text) hrest
    have hrefuses := Refuses.pair_second htakes (.char hopen)
    rw [without_append_dropWhile] at hrefuses
    exact hrefuses.map

variable (opening closing : Char)

theorem delimited_takes {s : List Char} (hs : s ≠ []) (hclosing : closing ∉ s) (rest : List Char) :
    (between (char opening) (charsUntil closing) (char closing) : Parser σ String).Takes
      (opening :: (s ++ [closing])) (String.ofList s) rest := by
  have hrest : ∀ y ∈ (closing :: rest).head?, y = closing := by
    intro y hy
    exact (Option.mem_some.mp hy).symm
  exact .between (.char opening _) (.charsUntil hs hclosing hrest) (.char closing rest)

theorem delimited_of_closed {s rest : List Char} (hs : s ≠ []) (hclosing : closing ∉ s)
    (h : c.remaining? = some (opening :: (s ++ closing :: rest))) :
    ∃ t, between (char opening) (charsUntil closing) (char closing) c =
      ⟨t, .ok (.success (String.ofList s) (c.advance (s.length + 2)))⟩ := by
  have hsplit : c.remaining? = some (opening :: (s ++ [closing]) ++ rest) := by
    rw [h, List.cons_append, List.append_assoc, List.singleton_append]
  obtain ⟨t, ht⟩ := delimited_takes opening closing hs hclosing rest hsplit
  have hlength : (opening :: (s ++ [closing])).length = s.length + 2 := by
    rw [List.length_cons, List.length_append, List.length_singleton]
  rw [Context.consume_eq_advance hsplit, hlength] at ht
  exact ⟨t, ht⟩

theorem delimited_of_not_open (h : c.remaining? = some text) (hhead : text.head? ≠ some opening) :
    ∃ t e, between (char opening) (charsUntil closing) (char closing) c =
      ⟨t, .ok (.failure e c)⟩ := by
  cases text with
  | nil => exact ⟨_, _, between_eq_ok.mpr (.inl ⟨_, c, char_nil h opening, rfl⟩)⟩
  | cons y text =>
    have hne : y ≠ opening := by
      intro hy
      exact hhead (congrArg some hy)
    exact ⟨_, _, between_eq_ok.mpr (.inl ⟨_, c, char_other h hne, rfl⟩)⟩

theorem delimited_of_not_closed (h : c.remaining? = some (opening :: text))
    (hnot : ¬ ∃ s rest, s ≠ [] ∧ closing ∉ s ∧ text = s ++ closing :: rest) :
    ∃ t e, between (char opening) (charsUntil closing) (char closing) c =
      ⟨t, .ok (.failure e (c.advance 1))⟩ := by
  obtain ⟨t, e, d, hfailed⟩ := closed_refuses hnot (Context.remaining?_consume_head h)
  obtain rfl := terminated_failure_context hfailed
  rw [← Context.consume_head_eq_advance h]
  exact ⟨t, e, between_eq_ok.mpr (.inr ⟨[], opening, _, t, char_self h, hfailed, rfl⟩)⟩

end Parser

/-- The text between an opening and a closing delimiter is read if and only if it is written there, and
every failure stands at the opening delimiter or, if there is one, right behind it. -/
theorem between_delimiters_iff {σ : Type} {c : Context σ} {text : List Char} (opening closing : Char)
    (h : c.remaining? = some text) :
    let quoted : Parser σ String := .between (.char opening) (.charsUntil closing) (.char closing)
    ((∃ t v d, quoted c = ⟨t, .ok (.success v d)⟩) ↔
      ∃ s rest, s ≠ [] ∧ closing ∉ s ∧ text = opening :: (s ++ closing :: rest)) ∧
    (∀ s rest, s ≠ [] → closing ∉ s → text = opening :: (s ++ closing :: rest) →
      ∃ t, quoted c = ⟨t, .ok (.success (String.ofList s) (c.advance (s.length + 2)))⟩) ∧
    ((¬ ∃ s rest, s ≠ [] ∧ closing ∉ s ∧ text = opening :: (s ++ closing :: rest)) →
      ∃ t e, quoted c =
        ⟨t, .ok (.failure e (if text.head? = some opening then c.advance 1 else c))⟩) := by
  intro quoted
  have hother (hnot : ¬ ∃ s rest, s ≠ [] ∧ closing ∉ s ∧ text = opening :: (s ++ closing :: rest)) :
      ∃ t e, quoted c =
        ⟨t, .ok (.failure e (if text.head? = some opening then c.advance 1 else c))⟩ := by
    by_cases hhead : text.head? = some opening
    · obtain ⟨tail, rfl⟩ := List.head?_eq_some_iff.mp hhead
      rw [if_pos hhead]
      apply Parser.delimited_of_not_closed opening closing h
      rintro ⟨s, rest, hs, hclosing, rfl⟩
      exact hnot ⟨s, rest, hs, hclosing, rfl⟩
    · rw [if_neg hhead]
      exact Parser.delimited_of_not_open opening closing h hhead
  refine ⟨⟨?_, ?_⟩, ?_, hother⟩
  · rintro ⟨t, v, d, hsuccess⟩
    apply Classical.byContradiction
    intro hnot
    obtain ⟨u, e, hfailure⟩ := hother hnot
    cases hsuccess.symm.trans hfailure
  · rintro ⟨s, rest, hs, hclosing, rfl⟩
    obtain ⟨t, ht⟩ := Parser.delimited_of_closed opening closing hs hclosing h
    exact ⟨t, _, _, ht⟩
  · rintro s rest hs hclosing rfl
    exact Parser.delimited_of_closed opening closing hs hclosing h

/-- One delimiter on both sides; without the second the failure stands behind the first. -/
theorem between_quotes :
    let quoted : Parser Unit String := .between (.char '"') (.charsUntil '"') (.char '"')
    let closed := Context.start ['"', 'a', 'é', '"', 'b'] ()
    let unclosed := Context.start ['"', 'a', 'é'] ()
    closed.remaining? = some ['"', 'a', 'é', '"', 'b'] ∧
    (∃ t, quoted closed = ⟨t, .ok (.success "aé" (closed.advance 4))⟩) ∧
    unclosed.remaining? = some ['"', 'a', 'é'] ∧
    ∃ t e, quoted unclosed = ⟨t, .ok (.failure e (unclosed.advance 1))⟩ := by
  intro quoted closed unclosed
  have hclosed : closed.remaining? = some ['"', 'a', 'é', '"', 'b'] := rfl
  have hunclosed : unclosed.remaining? = some ['"', 'a', 'é'] := rfl
  refine ⟨hclosed, ?_, hunclosed, ?_⟩
  · exact (between_delimiters_iff '"' '"' hclosed).2.1 ['a', 'é'] ['b'] (by decide) (by decide) rfl
  · apply (between_delimiters_iff '"' '"' hunclosed).2.2
    rintro ⟨s, rest, -, -, htext⟩
    have hmem : '"' ∈ ['a', 'é'] := by
      rw [(List.cons.inj htext).2]
      exact List.mem_append_right s List.mem_cons_self
    exact absurd hmem (by decide)

end StreamParser
