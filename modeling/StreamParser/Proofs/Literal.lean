import StreamParser.Proofs.Sequence
import StreamParser.Proofs.Stages

/-!
# Literals

A literal is followed as long as the text that remains goes the same way, which is over the longest prefix
they have in common. If this is the whole literal, it is read; if not, the literal fails behind it, as its
next character does there. A literal with a space behind it breaks off in the same places whether the space
is part of it or a parser of its own, but the pair of the two reports every failure at the start.
-/

namespace StreamParser

def commonPrefix : List Char → List Char → List Char
  | x :: xs, y :: ys => if x = y then x :: commonPrefix xs ys else []
  | _, _ => []

theorem prefix_commonPrefix_iff {p xs ys : List Char} :
    p <+: commonPrefix xs ys ↔ p <+: xs ∧ p <+: ys := by
  induction p generalizing xs ys with
  | nil => simp
  | cons z p ih =>
    cases xs with
    | nil => simp [commonPrefix]
    | cons x xs =>
      cases ys with
      | nil => simp [commonPrefix]
      | cons y ys =>
        by_cases hxy : x = y
        · subst hxy
          rw [commonPrefix, if_pos rfl, List.cons_prefix_cons, List.cons_prefix_cons,
            List.cons_prefix_cons, ih, and_and_left]
        · rw [commonPrefix, if_neg hxy, List.cons_prefix_cons, List.cons_prefix_cons]
          constructor
          · intro h
            exact absurd (List.prefix_nil.mp h) (List.cons_ne_nil z p)
          · rintro ⟨⟨hx, -⟩, hy, -⟩
            exact absurd (hx.symm.trans hy) hxy

theorem commonPrefix_begins_both (xs ys : List Char) :
    commonPrefix xs ys <+: xs ∧ commonPrefix xs ys <+: ys :=
  prefix_commonPrefix_iff.mp List.prefix_rfl

theorem commonPrefix_of_prefix {xs ys : List Char} (h : xs <+: ys) : commonPrefix xs ys = xs := by
  have hall : xs <+: commonPrefix xs ys := prefix_commonPrefix_iff.mpr ⟨List.prefix_rfl, h⟩
  exact (commonPrefix_begins_both xs ys).1.eq_of_length_le hall.length_le

theorem commonPrefix_split (xs ys : List Char) :
    ∃ as bs, xs = commonPrefix xs ys ++ as ∧ ys = commonPrefix xs ys ++ bs ∧
      ∀ x, as.head? = some x → bs.head? ≠ some x := by
  obtain ⟨⟨as, has⟩, bs, hbs⟩ := commonPrefix_begins_both xs ys
  refine ⟨as, bs, has.symm, hbs.symm, ?_⟩
  intro x hxas hxbs
  obtain ⟨as, rfl⟩ := List.head?_eq_some_iff.mp hxas
  obtain ⟨bs, rfl⟩ := List.head?_eq_some_iff.mp hxbs
  -- One more character would be in common as well.
  have hlonger : commonPrefix xs ys ++ [x] <+: commonPrefix xs ys := by
    apply prefix_commonPrefix_iff.mpr
    refine ⟨⟨as, ?_⟩, bs, ?_⟩
    · rw [List.append_assoc, List.singleton_append, has]
    · rw [List.append_assoc, List.singleton_append, hbs]
  have hle := hlonger.length_le
  rw [List.length_append, List.length_singleton] at hle
  omega

namespace Parser

variable {σ : Type} {c d : Context σ} {t : List Event} {e : ParseError} {x : Char}
variable {l : String} {common after rest text : List Char}

/-! ### What a literal does -/

theorem inTurn_chars (h : c.remaining? = some (common ++ rest)) :
    InTurn (common.map char) c [] common (c.consume common) := by
  induction common generalizing c with
  | nil =>
    rw [Context.consume_nil]
    exact .nil c
  | cons x common ih =>
    have hall : c.consume (x :: common) = (c.consume [x]).consume common :=
      Context.consume_append c [x] common
    rw [hall]
    exact .cons (char_self h) (ih (Context.remaining?_consume_head h))

theorem literal_of_append (h : c.remaining? = some (l.toList ++ rest)) :
    literal l c = pure (.success l (c.advance l.toList.length)) := by
  have hread := map_of_outcome (inTurn_chars h).sequence String.ofList
  rwa [Outcome.map_success, String.ofList_toList, Context.consume_eq_advance h] at hread

theorem literal_of_failure (hl : l.toList = common ++ x :: after)
    (h : c.remaining? = some (common ++ rest))
    (hx : char x (c.advance common.length) = ⟨t, .ok (.failure e d)⟩) :
    literal l c = ⟨t, .ok (.failure e d)⟩ := by
  rw [← Context.consume_eq_advance h] at hx
  have hread := (inTurn_chars h).sequence_append (sequence_of_failure hx (after.map char))
  rw [literal, hl, List.map_append, List.map_cons]
  exact map_of_outcome hread String.ofList

theorem char_fails_of_head?_ne (h : d.remaining? = some rest) (hx : rest.head? ≠ some x) :
    ∃ t e, char x d = ⟨t, .ok (.failure e d)⟩ := by
  obtain ⟨e, he⟩ := char_of_head?_ne h hx
  exact ⟨_, e, he⟩

theorem literal_eq_char (h : c.remaining? = some text)
    (hx : l.toList[(commonPrefix l.toList text).length]? = some x) :
    ∃ rest, (c.advance (commonPrefix l.toList text).length).remaining? = some rest ∧
      rest.head? ≠ some x ∧
      literal l c = map (fun _ => l) (char x) (c.advance (commonPrefix l.toList text).length) := by
  obtain ⟨after, rest, hl, htext, hapart⟩ := commonPrefix_split l.toList text
  generalize commonPrefix l.toList text = common at *
  have hsplit : c.remaining? = some (common ++ rest) := by rw [h, ← htext]
  have hd : (c.advance common.length).remaining? = some rest := by
    rw [Context.remaining?_advance, hsplit, Option.map_some, List.drop_left]
  have hnext : after.head? = some x := by
    rw [hl, List.getElem?_append_right (Nat.le_refl _), Nat.sub_self] at hx
    rwa [List.head?_eq_getElem?]
  obtain ⟨after, rfl⟩ := List.head?_eq_some_iff.mp hnext
  obtain ⟨t, e, hchar⟩ := char_fails_of_head?_ne hd (hapart x hnext)
  refine ⟨rest, hd, hapart x hnext, ?_⟩
  rw [literal_of_failure hl hsplit hchar, map_of_outcome hchar, Outcome.map_failure]

theorem literal_diverges (h : c.remaining? = some text) (hnot : ¬ l.toList <+: text) :
    ∃ t e, literal l c =
      ⟨t, .ok (.failure e (c.advance (commonPrefix l.toList text).length))⟩ := by
  have hpart := commonPrefix_begins_both l.toList text
  have hshorter : (commonPrefix l.toList text).length < l.toList.length := by
    apply Nat.lt_of_not_le
    intro hle
    rw [hpart.1.eq_of_length_le hle] at hpart
    exact hnot hpart.2
  obtain ⟨rest, hd, hhead, hrun⟩ := literal_eq_char h (List.getElem?_eq_getElem hshorter)
  obtain ⟨t, e, hchar⟩ := char_fails_of_head?_ne hd hhead
  exact ⟨t, e, hrun.trans (map_of_outcome hchar _)⟩

/-- A literal is read if all of it is there. Else the context of its failure is the one behind what it has in
common with the text, and the run is the one that its next character has there: either the stream has ended,
or another character is in its place. -/
theorem literal_stops_at_divergence (l : String) {c : Context σ} {text : List Char}
    (h : c.remaining? = some text) :
    let common := commonPrefix l.toList text
    let d := c.advance common.length
    (∀ p, p <+: common ↔ p <+: l.toList ∧ p <+: text) ∧
    (common.length = l.toList.length → literal l c = pure (.success l d)) ∧
    (∀ x, l.toList[common.length]? = some x →
      (∃ t e, char x d = ⟨t, .ok (.failure e d)⟩ ∧ literal l c = ⟨t, .ok (.failure e d)⟩) ∧
      (d.remaining? = some [] →
        literal l c = pure (d.fail (.endReached (.char x) d.position.stream))) ∧
      ∀ y rest, d.remaining? = some (y :: rest) →
        y ≠ x ∧ literal l c = ⟨[.mismatch x y d.position], .ok (d.failMismatch x y)⟩) ∧
    ∀ rest, text = l.toList ++ rest → literal l c = pure (.success l d) ∧ d.remaining? = some rest := by
  intro common d
  have hpart : common <+: l.toList ∧ common <+: text := commonPrefix_begins_both l.toList text
  refine ⟨fun p => prefix_commonPrefix_iff, ?_, ?_, ?_⟩
  · intro hlength
    have hall : common = l.toList := hpart.1.eq_of_length hlength
    obtain ⟨rest, htext⟩ := hpart.2
    have hsplit : c.remaining? = some (l.toList ++ rest) := by rw [h, ← hall, htext]
    have hread := literal_of_append hsplit
    rwa [← hlength] at hread
  · intro x hx
    obtain ⟨rest, hd, hhead, hrun⟩ := literal_eq_char h hx
    have hfails {t e} (hchar : char x d = ⟨t, .ok (.failure e d)⟩) :
        literal l c = ⟨t, .ok (.failure e d)⟩ := hrun.trans (map_of_outcome hchar _)
    refine ⟨?_, ?_, ?_⟩
    · obtain ⟨t, e, hchar⟩ := char_fails_of_head?_ne hd hhead
      exact ⟨t, e, hchar, hfails hchar⟩
    · intro hend
      exact hfails (char_nil hend x)
    · intro y rest' hother
      have hne : y ≠ x := by
        rintro rfl
        cases hd.symm.trans hother
        exact hhead rfl
      exact ⟨hne, hfails (char_other hother hne)⟩
  · rintro rest rfl
    have hall : common = l.toList := commonPrefix_of_prefix (List.prefix_append _ _)
    constructor
    · rw [literal_of_append h, ← hall]
    · rw [Context.remaining?_advance, h, hall, Option.map_some, List.drop_left]

/-- Behind the newline the literal goes another way than the text, or on where the text has ended. -/
theorem literal_stops_behind_newline :
    let c := Context.start ['é', '\n', 'x'] ()
    c.remaining? = some ['é', '\n', 'x'] ∧
    literal "é\nb" c = ⟨[.mismatch 'b' 'x' (c.advance 2).position],
      .ok ((c.advance 2).failWith (.located ⟨⟨"Character Stream", 2, 2, 1⟩, .mismatch (.char 'b') 'x'⟩))⟩ ∧
    literal "é\nxy" c = pure ((c.advance 3).fail (.endReached (.char 'y') "Character Stream")) ∧
    literal "é\n" c = pure (.success "é\n" (c.advance 2)) ∧ (c.advance 2).remaining? = some ['x'] := by
  intro c
  have h : c.remaining? = some ['é', '\n', 'x'] := rfl
  obtain ⟨-, -, hother, -⟩ := literal_stops_at_divergence "é\nb" h
  obtain ⟨-, -, hend, -⟩ := literal_stops_at_divergence "é\nxy" h
  obtain ⟨-, -, -, hread⟩ := literal_stops_at_divergence "é\n" h
  exact ⟨h, ((hother 'b' rfl).2.2 'x' [] rfl).2, (hend 'y' rfl).2.1 rfl, hread ['x'] rfl⟩

/-! ### A literal and a space -/

theorem literal_append (l m : String) :
    (literal (l ++ m) : Parser σ String) =
      map (fun v => v.1 ++ v.2) (andThen (literal l) (literal m)) := by
  have hjoin : (fun v : String × String => v.1 ++ v.2) ∘ Prod.map String.ofList String.ofList =
      fun v => String.ofList (v.1 ++ v.2) := funext fun v => String.ofList_append.symm
  rw [literal, literal, literal, andThen_map, map_map, hjoin, String.toList_append, List.map_append,
    sequence_append, map_map]
  rfl

theorem char_value {v : Char} (h : char x c = ⟨t, .ok (.success v d)⟩) : v = x := by
  rcases hr : c.remaining? with _ | _ | ⟨y, rest⟩
  · rw [char, Context.reading_of_misplaced hr] at h
    cases h
  · rw [char_nil hr] at h
    cases h
  · by_cases hy : y = x
    · subst hy
      rw [char_self hr] at h
      cases h
      rfl
    · rw [char_other hr hy] at h
      cases h

theorem literal_singleton (x : Char) :
    (literal (String.singleton x) : Parser σ String) = map (fun _ => String.singleton x) (char x) := by
  funext c
  rw [literal, String.toList_singleton, List.map_singleton, sequence, sequence, andThen_just, map_map,
    map_map]
  apply map_congr
  intro t v d hv
  rw [char_value hv, String.singleton_eq_ofList]
  rfl

theorem literalThenSpace_reportedAt (l : String) (c : Context σ) :
    map (· ++ " ") (literalThenSpace l) c = Outcome.reportedAt c <$> literal (l ++ " ") c := by
  have hspace : (literal " " : Parser σ String) = map (fun _ => " ") space := literal_singleton ' '
  calc map (· ++ " ") (literalThenSpace l) c
    _ = map (fun v => v.1 ++ " ") (pair (literal l) space) c := by
      rw [literalThenSpace, terminated, map_map]
      rfl
    _ = Outcome.reportedAt c <$> map (fun v => v.1 ++ " ") (andThen (literal l) space) c := by
      rw [map_eq, map_eq, pair_eq_reportedAt, Outcome.map_reportedAt]
    _ = Outcome.reportedAt c <$> literal (l ++ " ") c := by
      rw [literal_append, hspace, andThen_map_right, map_map]
      rfl

/-- The runs are the same on every context, up to the value and to where a failure is reported. Where the text
can be read, both succeed if the literal and the space are there, and else both fail with the same error,
the one where it began and the other where it broke off. -/
theorem literalThenSpace_agrees_with_literal (l : String) (c : Context σ) :
    map (· ++ " ") (literalThenSpace l) c = Outcome.reportedAt c <$> literal (l ++ " ") c ∧
    ∀ text, c.remaining? = some text →
      let spaced := l ++ " "
      let d := c.advance (commonPrefix spaced.toList text).length
      (spaced.toList <+: text → ∃ t, literalThenSpace l c = ⟨t, .ok (.success l d)⟩ ∧
        literal spaced c = ⟨t, .ok (.success spaced d)⟩) ∧
      (¬ spaced.toList <+: text → ∃ t e, literalThenSpace l c = ⟨t, .ok (.failure e c)⟩ ∧
        literal spaced c = ⟨t, .ok (.failure e d)⟩) := by
  have hreported := literalThenSpace_reportedAt l c
  refine ⟨hreported, fun text h => ?_⟩
  intro spaced d
  constructor
  · intro hthere
    have hread : literal spaced c = ⟨[], .ok (.success spaced d)⟩ := by
      have hall : commonPrefix spaced.toList text = spaced.toList := commonPrefix_of_prefix hthere
      obtain ⟨rest, rfl⟩ := hthere
      rw [literal_of_append h, ← hall]
      rfl
    rw [Outcome.reportedAt_eq_success.mpr hread] at hreported
    obtain ⟨v, hv, heq⟩ := map_eq_success.mp hreported
    obtain rfl : v = l := (String.append_left_inj " ").mp heq
    exact ⟨[], hv, hread⟩
  · intro hnot
    obtain ⟨t, e, hfails⟩ := literal_diverges h hnot
    rw [Outcome.reportedAt_eq_failure.mpr ⟨rfl, d, hfails⟩] at hreported
    exact ⟨t, e, map_eq_failure.mp hreported, hfails⟩

/-- A tab in the place of the space, and the space itself. -/
theorem literalThenSpace_agrees_at_tab :
    let c := Context.start ['n', 'é', '\t'] ()
    let d := Context.start ['n', 'é', ' ', 'x'] ()
    (∃ t e, literalThenSpace "né" c = ⟨t, .ok (.failure e c)⟩ ∧
      literal "né " c = ⟨t, .ok (.failure e (c.advance 2))⟩) ∧
    ∃ t, literalThenSpace "né" d = ⟨t, .ok (.success "né" (d.advance 3))⟩ ∧
      literal "né " d = ⟨t, .ok (.success "né " (d.advance 3))⟩ := by
  intro c d
  have hspaced : "né" ++ " " = "né " := by decide
  obtain ⟨-, hc⟩ := literalThenSpace_agrees_with_literal "né" c
  obtain ⟨-, hd⟩ := literalThenSpace_agrees_with_literal "né" d
  rw [hspaced] at hc hd
  exact ⟨(hc _ rfl).2 (by decide), (hd _ rfl).1 (by decide)⟩

end Parser

end StreamParser
