import StreamParser.Proofs.Pairing
import StreamParser.Proofs.Takes

/-!
# Spaces

A text begins with some number of spaces, behind which it ends or goes on otherwise. `skipSpaces` passes all
of them at once and the repetition of `space` passes one after the other. They come to the same context; only
the repetition has to try once more there, which is logged if a character stands in its way.
-/

namespace StreamParser

theorem exists_leading_run (x : Char) (text : List Char) :
    ∃ n rest, text = List.replicate n x ++ rest ∧ rest.head? ≠ some x := by
  induction text with
  | nil => exact ⟨0, [], rfl, by simp⟩
  | cons y text ih =>
    by_cases hy : y = x
    · subst hy
      obtain ⟨n, rest, rfl, hrest⟩ := ih
      exact ⟨n + 1, rest, rfl, hrest⟩
    · refine ⟨0, y :: text, rfl, ?_⟩
      intro hhead
      exact hy (Option.some.inj hhead)

namespace Parser

variable {σ : Type} {c : Context σ} {x : Char} {rest : List Char} {n : Nat}

theorem many_char (h : c.remaining? = some (List.replicate n x ++ rest)) (hrest : rest.head? ≠ some x) :
    many (char x) c = ⟨rest.head?.toList.map (.mismatch x · (c.advance n).position),
      .ok (.success (List.replicate n x) (c.advance n))⟩ := by
  induction n generalizing c with
  | zero =>
    obtain ⟨e, he⟩ := char_of_head?_ne h hrest
    rw [Context.advance_zero]
    exact many_of_failure he
  | succ n ih =>
    have hsplit : c.remaining? = some ([x] ++ (List.replicate n x ++ rest)) := h
    have htail := ih (Context.remaining?_consume_head h)
    have hstep : (c.consume [x]).advance n = c.advance (n + 1) := by
      rw [Context.consume_head_eq_advance h, Context.advance_advance, Nat.add_comm]
    rw [hstep] at htail
    exact many_of_consume hsplit (List.cons_ne_nil x []) (char_self h) htail

theorem many_char_of_misplaced (h : c.remaining? = none) (x : Char) :
    many (char x) c = .halt .misplaced := by
  rw [many, repeated, char, Context.reading_of_misplaced h]
  rfl

theorem skipSpaces_of_misplaced (h : c.remaining? = none) : skipSpaces c = .halt .misplaced := by
  rw [skipSpaces, Context.reading_of_misplaced h]

theorem skipSpaces_trace (c : Context σ) : (skipSpaces c).trace = [] := by
  cases h : c.remaining? with
  | none => rw [skipSpaces_of_misplaced h]; rfl
  | some text => rw [skipSpaces_eq h]; rfl

theorem skipSpaces_replicate (h : c.remaining? = some (List.replicate n ' ' ++ rest))
    (hrest : rest.head? ≠ some ' ') : skipSpaces c = pure (.success () (c.advance n)) := by
  obtain ⟨t, ht⟩ := Takes.skipSpaces n hrest h
  obtain rfl : t = [] := by
    rw [← skipSpaces_trace c, ht]
  rw [ht, Context.consume_eq_advance h, List.length_replicate]
  rfl

theorem skipSpaces_result (c : Context σ) :
    (skipSpaces c).result = (map (fun _ => ()) (many space) c).result := by
  cases h : c.remaining? with
  | none =>
    have hmany : many space c = .halt .misplaced := many_char_of_misplaced h ' '
    rw [skipSpaces_of_misplaced h, map_of_halt hmany]
    rfl
  | some text =>
    obtain ⟨n, rest, rfl, hrest⟩ := exists_leading_run ' ' text
    have hmany := many_char h hrest
    rw [skipSpaces_replicate h hrest, space, map_of_outcome hmany]
    rfl

/-- Skipping spaces logs nothing and has the result of a repetition of `space`, without its values. Where the
text can be read, both succeed behind all the spaces that it begins with. There a second skip stays, and the
repetition logs the one character that stopped it, unless the text is at its end. -/
theorem skipSpaces_agrees_with_many_space (c : Context σ) :
    (skipSpaces c).trace = [] ∧
    (skipSpaces c).result = (map (fun _ => ()) (many space) c).result ∧
    ∀ text, c.remaining? = some text →
      ∃ n rest, text = List.replicate n ' ' ++ rest ∧ rest.head? ≠ some ' ' ∧
        let d := c.advance n
        d.remaining? = some rest ∧
        skipSpaces c = pure (.success () d) ∧
        many space c =
          ⟨rest.head?.toList.map (.mismatch ' ' · d.position), .ok (.success (List.replicate n ' ') d)⟩ ∧
        skipSpaces d = pure (.success () d) := by
  refine ⟨skipSpaces_trace c, skipSpaces_result c, fun text h => ?_⟩
  obtain ⟨n, rest, rfl, hrest⟩ := exists_leading_run ' ' text
  have hd : (c.advance n).remaining? = some rest := by
    rw [Context.remaining?_advance, h, Option.map_some, List.drop_left' List.length_replicate]
  have hagain := skipSpaces_replicate (n := 0) hd hrest
  rw [Context.advance_zero] at hagain
  exact ⟨n, rest, rfl, hrest, hd, skipSpaces_replicate h hrest, many_char h hrest, hagain⟩

/-- Two spaces before a character of two bytes, and a space behind it. -/
theorem skipSpaces_agrees_before_letter :
    let c := Context.start [' ', ' ', 'é', ' '] ()
    let d := c.advance 2
    c.remaining? = some [' ', ' ', 'é', ' '] ∧
    skipSpaces c = pure (.success () d) ∧
    many space c = ⟨[.mismatch ' ' 'é' ⟨"Character Stream", 2, 1, 2⟩], .ok (.success [' ', ' '] d)⟩ ∧
    skipSpaces d = pure (.success () d) := by
  intro c d
  have h : c.remaining? = some [' ', ' ', 'é', ' '] := rfl
  obtain ⟨-, -, hall⟩ := skipSpaces_agrees_with_many_space c
  obtain ⟨n, rest, htext, hrest, -, hskip, hmany, hagain⟩ := hall _ h
  -- The spaces are two: with fewer the text would go on with one, with more it would have a third.
  obtain ⟨rfl, rfl⟩ : n = 2 ∧ rest = ['é', ' '] := by
    rcases n with _ | _ | _ | n
    · exact absurd (congrArg List.head? htext).symm hrest
    · exact absurd (congrArg (List.head? ∘ List.tail) htext).symm hrest
    · exact ⟨rfl, (congrArg (List.drop 2) htext).symm⟩
    · cases htext
  exact ⟨h, hskip, hmany, hagain⟩

end Parser

end StreamParser
