import StreamParser.Proofs.Pairing

/-!
# Sequences in stages

What follows in a sequence may be run as a sequence of its own, where the first part has come to: values
and traces are put together, and a failure of either stage is the failure of the whole. A sequence is also
the pair of its first parser with the pair of the second with the next, and so on, but for the context of
a failure, which these pairs report at the start.
-/

namespace StreamParser

/-- So many values, one in a pair with all that follow. -/
def Tuple (α : Type) : Nat → Type
  | 0 => Unit
  | n + 1 => α × Tuple α n

def Tuple.toList {α : Type} : {n : Nat} → Tuple α n → List α
  | 0, _ => []
  | _ + 1, x => x.1 :: x.2.toList

namespace Parser

variable {σ α : Type}

/-- Pairs nested to the right, with nothing more to read in the innermost. -/
def nestedPairs : (ps : List (Parser σ α)) → Parser σ (Tuple α ps.length)
  | [] => just ()
  | p :: ps => pair p (nestedPairs ps)

theorem sequence_append (ps qs : List (Parser σ α)) :
    sequence (ps ++ qs) = map (fun vs => vs.1 ++ vs.2) (andThen (sequence ps) (sequence qs)) := by
  induction ps with
  | nil =>
    rw [sequence, just_andThen, map_map]
    exact (map_id (sequence qs)).symm
  | cons p ps ih =>
    have hleft : sequence (p :: (ps ++ qs)) =
        map (fun x => x.1.1 :: (x.1.2 ++ x.2)) (andThen (andThen p (sequence ps)) (sequence qs)) := by
      rw [sequence, ih, andThen_map_right, map_map, ← andThen_assoc, map_map]
      rfl
    rw [List.cons_append, hleft, sequence, andThen_map_left, map_map]
    rfl

theorem nestedPairs_eq_sequence (ps : List (Parser σ α)) (c : Context σ) :
    map Tuple.toList (nestedPairs ps) c = Outcome.reportedAt c <$> sequence ps c := by
  induction ps generalizing c with
  | nil => rfl
  | cons p ps ih =>
    -- The inner pairs report failures at their own start, which the outermost pair does not show.
    let cons (vs : α × List α) : List α := vs.1 :: vs.2
    calc map Tuple.toList (nestedPairs (p :: ps)) c
      _ = map cons (pair p (map Tuple.toList (nestedPairs ps))) c := by
        rw [nestedPairs, pair_map_right, map_map]
        rfl
      _ = map cons (pair p (sequence ps)) c := by
        rw [pair_reportedAt_right p ih]
      _ = Outcome.reportedAt c <$> map cons (andThen p (sequence ps)) c := by
        rw [map_eq, map_eq, pair_eq_reportedAt, Outcome.map_reportedAt]

theorem sequence_append_eq_ok {ps qs : List (Parser σ α)} {c : Context σ} {t : List Event}
    {o : Outcome σ (List α)} :
    sequence (ps ++ qs) c = ⟨t, .ok o⟩ ↔
      (∃ e d, sequence ps c = ⟨t, .ok (.failure e d)⟩ ∧ o = .failure e d) ∨
      ∃ t₁ vs d t₂, sequence ps c = ⟨t₁, .ok (.success vs d)⟩ ∧ t = t₁ ++ t₂ ∧
        ((∃ e f, sequence qs d = ⟨t₂, .ok (.failure e f)⟩ ∧ o = .failure e f) ∨
          ∃ ws f, sequence qs d = ⟨t₂, .ok (.success ws f)⟩ ∧ o = .success (vs ++ ws) f) := by
  rw [sequence_append, map_eq_ok]
  constructor
  · rintro ⟨o', ho', rfl⟩
    rcases andThen_eq_ok.mp ho' with ⟨e, d, hps, rfl⟩ | ⟨t₁, vs, d, t₂, o'', hps, hqs, ht, rfl⟩
    · exact .inl ⟨e, d, hps, rfl⟩
    · refine .inr ⟨t₁, vs, d, t₂, hps, ht, ?_⟩
      cases o'' with
      | success ws f => exact .inr ⟨ws, f, hqs, rfl⟩
      | failure e f => exact .inl ⟨e, f, hqs, rfl⟩
  · rintro (⟨e, d, hps, rfl⟩ | ⟨t₁, vs, d, t₂, hps, ht, ⟨e, f, hqs, rfl⟩ | ⟨ws, f, hqs, rfl⟩⟩)
    · exact ⟨.failure e d, andThen_eq_ok.mpr (.inl ⟨e, d, hps, rfl⟩), rfl⟩
    · exact ⟨.failure e f, andThen_eq_ok.mpr (.inr ⟨t₁, vs, d, t₂, _, hps, hqs, ht, rfl⟩), rfl⟩
    · exact ⟨.success (vs, ws) f, andThen_eq_ok.mpr (.inr ⟨t₁, vs, d, t₂, _, hps, hqs, ht, rfl⟩), rfl⟩

theorem sequence_eq_success_iff {ps : List (Parser σ α)} {c d : Context σ} {t : List Event}
    {vs : List α} :
    sequence ps c = ⟨t, .ok (.success vs d)⟩ ↔
      ∃ v, nestedPairs ps c = ⟨t, .ok (.success v d)⟩ ∧ v.toList = vs := by
  rw [← Outcome.reportedAt_eq_success (c := c), ← nestedPairs_eq_sequence, map_eq_ok]
  constructor
  · rintro ⟨o, ho, heq⟩
    cases o with
    | success v d' =>
      cases heq
      exact ⟨v, ho, rfl⟩
    | failure e d' => cases heq
  · rintro ⟨v, hv, rfl⟩
    exact ⟨.success v d, hv, rfl⟩

theorem sequence_eq_failure_iff {ps : List (Parser σ α)} {c : Context σ} {t : List Event}
    {e : ParseError} :
    (∃ d, sequence ps c = ⟨t, .ok (.failure e d)⟩) ↔
      nestedPairs ps c = ⟨t, .ok (.failure e c)⟩ := by
  have hreported : (∃ d, sequence ps c = ⟨t, .ok (.failure e d)⟩) ↔
      map Tuple.toList (nestedPairs ps) c = ⟨t, .ok (.failure e c)⟩ := by
    rw [nestedPairs_eq_sequence, Outcome.reportedAt_eq_failure, and_iff_right rfl]
  rw [hreported, map_eq_ok]
  constructor
  · rintro ⟨o, ho, heq⟩
    cases o with
    | success v d => cases heq
    | failure e' d =>
      cases heq
      exact ho
  · intro h
    exact ⟨.failure e c, h, rfl⟩

/-- A sequence is run in two stages wherever it is divided. It succeeds exactly where the pairs of its
parsers do, with the same values, and it fails where they fail, with the same error. -/
theorem sequence_in_stages (ps qs : List (Parser σ α)) (c : Context σ) :
    (∀ t o, sequence (ps ++ qs) c = ⟨t, .ok o⟩ ↔
      (∃ e d, sequence ps c = ⟨t, .ok (.failure e d)⟩ ∧ o = .failure e d) ∨
      ∃ t₁ vs d t₂, sequence ps c = ⟨t₁, .ok (.success vs d)⟩ ∧ t = t₁ ++ t₂ ∧
        ((∃ e f, sequence qs d = ⟨t₂, .ok (.failure e f)⟩ ∧ o = .failure e f) ∨
          ∃ ws f, sequence qs d = ⟨t₂, .ok (.success ws f)⟩ ∧ o = .success (vs ++ ws) f)) ∧
    (∀ t vs d, sequence ps c = ⟨t, .ok (.success vs d)⟩ ↔
      ∃ v, nestedPairs ps c = ⟨t, .ok (.success v d)⟩ ∧ v.toList = vs) ∧
    ∀ t e, (∃ d, sequence ps c = ⟨t, .ok (.failure e d)⟩) ↔
      nestedPairs ps c = ⟨t, .ok (.failure e c)⟩ := by
  refine ⟨?_, ?_, ?_⟩
  · intro t o
    exact sequence_append_eq_ok
  · intro t vs d
    exact sequence_eq_success_iff
  · intro t e
    exact sequence_eq_failure_iff

end Parser

end StreamParser
