import StreamParser.Proofs.Alternatives
import StreamParser.Proofs.Pairing

/-!
# Left factoring

Alternatives that begin with the same parser come to what this parser comes to in front of the
alternatives. The one runs it once for each alternative that is tried, the other once in all, so that
their traces differ. But nothing that an alternative does before it fails reaches the next one, and every
failure is reported where the pair began.
-/

namespace StreamParser

namespace Parser

variable {σ α β : Type} {p : Parser σ α} {c d : Context σ}

/-! ### Results of alternatives -/

theorem or_result (p q : Parser σ α) (c : Context σ) :
    (or p q c).result = (p c).result >>= fun o => if o.isSuccess then .ok o else (q c).result := by
  rcases hp : p c with ⟨t, h | ⟨v, d⟩ | ⟨e, d⟩⟩
  · rw [or_of_halt hp]
    rfl
  · rw [or_of_success hp]
    rfl
  · rw [or_of_failure hp]
    rfl

theorem choice_result_of_forall {ps : List (Parser σ α)} {x : Except Halt (Outcome σ α)} (hps : ps ≠ [])
    (h : ∀ p ∈ ps, (p c).result = x) : (choice ps c).result = x := by
  induction ps, hps using List.recNeNil with
  | singleton p => exact h p List.mem_cons_self
  | cons p ps hps ih =>
    obtain ⟨hp, hrest⟩ := List.forall_mem_cons.mp h
    rw [choice_cons p hps, or_result, hp, ih hrest]
    rcases x with h | o
    · rfl
    · exact ite_self _

section Corresponding

variable {f : Outcome σ α → Outcome σ β} (hf : ∀ o, (f o).isSuccess = o.isSuccess)
include hf

theorem or_result_map {p q : Parser σ α} {p' q' : Parser σ β} (hp : (p' c).result = (p d).result.map f)
    (hq : (q' c).result = (q d).result.map f) : (or p' q' c).result = (or p q d).result.map f := by
  rw [or_result, or_result, hp, hq]
  rcases (p d).result with h | o
  · rfl
  · change (if (f o).isSuccess then .ok (f o) else (q d).result.map f) =
      (if o.isSuccess then .ok o else (q d).result).map f
    rw [hf]
    split <;> rfl

theorem choice_result_map {k : Parser σ α → Parser σ β} {ps : List (Parser σ α)} (hps : ps ≠ [])
    (h : ∀ p, (k p c).result = (p d).result.map f) :
    (choice (ps.map k) c).result = (choice ps d).result.map f := by
  induction ps, hps using List.recNeNil with
  | singleton p => exact h p
  | cons p ps hps ih =>
    rw [List.map_cons, choice_cons p hps, choice_cons (k p) (mt List.map_eq_nil_iff.mp hps)]
    exact or_result_map hf (h p) ih

end Corresponding

/-! ### The common first part -/

theorem pair_of_not_succeeds (hp : ¬ p.Succeeds c) (q r : Parser σ β) : pair p q c = pair p r c := by
  rcases ho : p c with ⟨t, h | ⟨a, d⟩ | ⟨e, d⟩⟩
  · rw [pair_of_halt ho, pair_of_halt ho]
  · exact absurd ⟨t, a, d, ho⟩ hp
  · rw [pair_of_failure ho, pair_of_failure ho]

theorem choice_pairs_result (p : Parser σ α) {qs : List (Parser σ β)} (hqs : qs ≠ []) (c : Context σ) :
    (choice (qs.map (pair p)) c).result = (pair p (choice qs) c).result := by
  by_cases hp : p.Succeeds c
  · obtain ⟨t, a, d, ha⟩ := hp
    rw [pair_of_success ha]
    apply choice_result_map (by simp) hqs
    intro q
    rw [pair_of_success ha]
  · -- Nothing is run behind `p`, so that each alternative comes to the same as any other.
    apply choice_result_of_forall (mt List.map_eq_nil_iff.mp hqs)
    rintro r hr
    obtain ⟨q, -, rfl⟩ := List.mem_map.mp hr
    rw [pair_of_not_succeeds hp]

/-- A common first part may be taken out of alternatives: value, context and error stay, every failure is
reported at the start, and where each alternative comes to an outcome, so do both forms. -/
theorem left_factoring (p : Parser σ α) (c : Context σ) :
    (∀ q r : Parser σ β, (or (pair p q) (pair p r) c).result = (pair p (or q r) c).result) ∧
    (∀ qs : List (Parser σ β), qs ≠ [] →
      (choice (qs.map (pair p)) c).result = (pair p (choice qs) c).result ∧
      ((∀ q ∈ qs, (pair p q).Answers c) → (pair p (choice qs)).Answers c)) ∧
    ∀ (q : Parser σ β) (e : ParseError) (d : Context σ),
      (pair p q c).result = .ok (.failure e d) → d = c := by
  refine ⟨?_, ?_, ?_⟩
  · intro q r
    exact choice_pairs_result p (List.cons_ne_nil q [r]) c
  · intro qs hqs
    have hsame := choice_pairs_result p hqs c
    refine ⟨hsame, fun hanswers => ?_⟩
    have hall : ∀ r ∈ qs.map (pair p), r.Answers c := List.forall_mem_map.mpr hanswers
    have hseparate := choice_answers (mt List.map_eq_nil_iff.mp hqs) hall
    rw [answers_iff, hsame] at hseparate
    exact answers_iff.mpr hseparate
  · intro q e d h
    exact pair_failure_context h

/-- What the first alternative adds to the state before it fails is gone, in both forms, and where the second
one fails as well its error is reported at the start. -/
theorem letters_factored :
    let adding (n : Nat) (x : Char) : Parser Nat Char := preceded (update (· + n)) (char x)
    let qs := [adding 10 'x', adding 100 'b']
    let c := Context.start ['a', 'b'] 0
    let d := Context.start ['a', 'c'] 0
    qs ≠ [] ∧ (∀ q ∈ qs, (pair (adding 1 'a') q).Answers c) ∧
    (choice (qs.map (pair (adding 1 'a'))) c).result = (pair (adding 1 'a') (choice qs) c).result ∧
    (pair (adding 1 'a') (choice qs)).Answers c ∧
    (pair (adding 1 'a') (choice qs) c).result =
      .ok (.success ('a', 'b') ((c.advance 2).withState 101)) ∧
    ∃ e f, (pair (adding 1 'a') (choice qs) d).result = .ok (.failure e f) ∧ f = d := by
  intro adding qs c d
  have hqs : qs ≠ [] := List.cons_ne_nil _ _
  have hanswers : ∀ q ∈ qs, (pair (adding 1 'a') q).Answers c := by
    simp only [qs, List.forall_mem_cons]
    exact ⟨⟨_, _, rfl⟩, ⟨_, _, rfl⟩, List.forall_mem_nil _⟩
  obtain ⟨-, hfactored, -⟩ := left_factoring (β := Char) (adding 1 'a') c
  obtain ⟨hsame, hends⟩ := hfactored qs hqs
  obtain ⟨-, -, hreported⟩ := left_factoring (β := Char) (adding 1 'a') d
  have failed : (pair (adding 1 'a') (choice qs) d).result = .ok (.failure _ _) := rfl
  exact ⟨hqs, hanswers, hsame, hends hanswers, rfl, _, _, failed, hreported _ _ _ failed⟩

end Parser

end StreamParser
