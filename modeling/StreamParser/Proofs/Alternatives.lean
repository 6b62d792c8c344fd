import Mathlib.Data.List.Induction
import StreamParser.Parser.Text
import StreamParser.Proofs.Combinator

/-!
# Alternatives in order

Alternatives may be combined two by two in many ways, but it is their order alone that counts: all ways
run as the `choice` of them does. The alternatives that fail are given up one after the other, each with a
fallback in the trace. Then comes the one that succeeds, or the last of all, and what it does is the
answer. What those before it have read and changed is forgotten, since each is run on the same context.
-/

namespace StreamParser

namespace Parser

variable {σ α : Type} {p q : Parser σ α} {ps : List (Parser σ α)} {c d : Context σ} {t : List Event}

def Succeeds (p : Parser σ α) (c : Context σ) : Prop := ∃ t v d, p c = ⟨t, .ok (.success v d)⟩

def Fails (p : Parser σ α) (c : Context σ) : Prop := ∃ t e d, p c = ⟨t, .ok (.failure e d)⟩

def Answers (p : Parser σ α) (c : Context σ) : Prop := ∃ t o, p c = ⟨t, .ok o⟩

theorem Answers.succeeds_or_fails (h : p.Answers c) : p.Succeeds c ∨ p.Fails c := by
  obtain ⟨t, o, ho⟩ := h
  cases o with
  | success v d => exact .inl ⟨t, v, d, ho⟩
  | failure e d => exact .inr ⟨t, e, d, ho⟩

theorem answers_iff : p.Answers c ↔ ∃ o, (p c).result = .ok o := by
  constructor
  · rintro ⟨t, o, ho⟩
    exact ⟨o, congrArg Run.result ho⟩
  · rintro ⟨o, ho⟩
    exact ⟨(p c).trace, o, Run.ext rfl ho⟩

/-! ### Two alternatives -/

theorem or_of_halt {h : Halt} (hp : p c = ⟨t, .error h⟩) (q : Parser σ α) : or p q c = ⟨t, .error h⟩ := by
  rw [or, hp, Run.error_bind]

theorem or_of_success {v : α} (hp : p c = ⟨t, .ok (.success v d)⟩) (q : Parser σ α) :
    or p q c = ⟨t, .ok (.success v d)⟩ := Run.bind_of_pure hp rfl

theorem or_of_failure {e : ParseError} (hp : p c = ⟨t, .ok (.failure e d)⟩) (q : Parser σ α) :
    or p q c = ⟨t ++ .fallback c.position :: (q c).trace, (q c).result⟩ := by
  rw [or, hp, Run.ok_bind]
  rfl

theorem or_assoc (p q r : Parser σ α) : or (or p q) r = or p (or q r) := by
  funext c
  rcases hp : p c with ⟨t, h | ⟨v, d⟩ | ⟨e, d⟩⟩
  · rw [or_of_halt (or_of_halt hp q), or_of_halt hp]
  · rw [or_of_success (or_of_success hp q), or_of_success hp]
  · have hpq := or_of_failure hp q
    rw [or_of_failure hp]
    rcases hq : q c with ⟨u, h | ⟨v, d'⟩ | ⟨e', d'⟩⟩
    · rw [hq] at hpq
      rw [or_of_halt hpq, or_of_halt hq]
    · rw [hq] at hpq
      rw [or_of_success hpq, or_of_success hq]
    · rw [hq] at hpq
      rw [or_of_failure hpq, or_of_failure hq, List.append_assoc]
      rfl

instance : Std.Associative (or : Parser σ α → Parser σ α → Parser σ α) := ⟨or_assoc⟩

/-! ### Any number of alternatives -/

theorem choice_cons (p : Parser σ α) (hps : ps ≠ []) : choice (p :: ps) = or p (choice ps) := by
  cases ps with
  | nil => exact absurd rfl hps
  | cons q ps => exact List.foldl_assoc

theorem choice_append (hps : ps ≠ []) {qs : List (Parser σ α)} (hqs : qs ≠ []) :
    choice (ps ++ qs) = or (choice ps) (choice qs) := by
  induction ps, hps using List.recNeNil with
  | singleton p => exact choice_cons p hqs
  | cons p ps hps ih =>
    rw [List.cons_append, choice_cons p (List.append_ne_nil_of_left_ne_nil hps qs), ih,
      choice_cons p hps, or_assoc]

inductive Grouping (σ α : Type) where
  | single (p : Parser σ α)
  | both (first second : Grouping σ α)

namespace Grouping

def alternatives : Grouping σ α → List (Parser σ α)
  | single p => [p]
  | both g h => g.alternatives ++ h.alternatives

def combined : Grouping σ α → Parser σ α
  | single p => p
  | both g h => or g.combined h.combined

theorem alternatives_ne_nil (g : Grouping σ α) : g.alternatives ≠ [] := by
  induction g with
  | single p => exact List.cons_ne_nil p []
  | both g h ihg _ => exact List.append_ne_nil_of_left_ne_nil ihg _

theorem combined_eq_choice (g : Grouping σ α) : g.combined = choice g.alternatives := by
  induction g with
  | single p => rfl
  | both g h ihg ihh =>
    rw [combined, alternatives, choice_append g.alternatives_ne_nil h.alternatives_ne_nil, ihg, ihh]

end Grouping

/-- What is logged on `c` by alternatives that fail, with a fallback after each. -/
def fallbacks (c : Context σ) (ps : List (Parser σ α)) : List Event :=
  ps.flatMap fun p => (p c).trace ++ [.fallback c.position]

theorem fallbacks_cons {e : ParseError} (hp : p c = ⟨t, .ok (.failure e d)⟩) (ps : List (Parser σ α)) :
    fallbacks c (p :: ps) = t ++ .fallback c.position :: fallbacks c ps := by
  rw [fallbacks, List.flatMap_cons, hp, List.append_assoc]
  rfl

theorem choice_of_failures {before after : List (Parser σ α)} (hbefore : ∀ q ∈ before, q.Fails c)
    (hp : p.Succeeds c ∨ after = []) :
    choice (before ++ p :: after) c = ⟨fallbacks c before ++ (p c).trace, (p c).result⟩ := by
  induction before with
  | nil =>
    rcases hp with ⟨t, v, d, hv⟩ | rfl
    · by_cases hnil : after = []
      · subst hnil
        rfl
      · rw [List.nil_append, choice_cons p hnil, or_of_success hv, hv]
        rfl
    · rfl
  | cons q before ih =>
    obtain ⟨hq, hrest⟩ := List.forall_mem_cons.mp hbefore
    obtain ⟨t, e, d, he⟩ := hq
    rw [List.cons_append, choice_cons q (by simp), or_of_failure he, ih hrest, fallbacks_cons he,
      List.append_assoc]
    rfl

theorem exists_split (hps : ps ≠ []) (h : ∀ p ∈ ps, p.Answers c) :
    ∃ before p after, ps = before ++ p :: after ∧ (∀ q ∈ before, q.Fails c) ∧
      (p.Succeeds c ∨ p.Fails c ∧ after = []) := by
  induction ps, hps using List.recNeNil with
  | singleton p =>
    have hp := (h p List.mem_cons_self).succeeds_or_fails
    exact ⟨[], p, [], rfl, List.forall_mem_nil _, hp.imp_right fun hf => ⟨hf, rfl⟩⟩
  | cons p ps _ ih =>
    obtain ⟨hp, hrest⟩ := List.forall_mem_cons.mp h
    rcases hp.succeeds_or_fails with hs | hf
    · exact ⟨[], p, ps, rfl, List.forall_mem_nil _, .inl hs⟩
    · obtain ⟨before, q, after, rfl, hbefore, hq⟩ := ih hrest
      exact ⟨p :: before, q, after, rfl, List.forall_mem_cons.mpr ⟨hf, hbefore⟩, hq⟩

theorem choice_answers {ps : List (Parser σ α)} (hps : ps ≠ []) (h : ∀ p ∈ ps, p.Answers c) :
    (choice ps).Answers c := by
  obtain ⟨before, p, after, rfl, hbefore, hp⟩ := exists_split hps h
  obtain ⟨t, o, ho⟩ := h p (by simp)
  have hrun := choice_of_failures hbefore (hp.imp_right And.right)
  rw [ho] at hrun
  exact ⟨_, o, hrun⟩

/-- However alternatives are combined in their order, the run is the same. It is that of those that fail
before the first success, or before the last one, each followed by a fallback, and then of this one. -/
theorem grouped_alternatives (hps : ps ≠ []) (h : ∀ p ∈ ps, p.Answers c) :
    (∀ g : Grouping σ α, g.alternatives = ps → g.combined c = choice ps c) ∧
    ∃ before p after, ps = before ++ p :: after ∧ (∀ q ∈ before, q.Fails c) ∧
      (p.Succeeds c ∨ p.Fails c ∧ after = []) ∧
      choice ps c = ⟨fallbacks c before ++ (p c).trace, (p c).result⟩ := by
  constructor
  · rintro g rfl
    rw [g.combined_eq_choice]
  · obtain ⟨before, p, after, rfl, hbefore, hp⟩ := exists_split hps h
    refine ⟨before, p, after, rfl, hbefore, hp, ?_⟩
    apply choice_of_failures hbefore
    exact hp.imp_right And.right

/-- The first alternative reads a character before it fails, the second changes the state; the third begins
where they did. -/
theorem literals_grouped :
    let spoiling : Parser Nat String := map (fun _ => "") (andThen (update (· + 1)) (char 'x'))
    let ps : List (Parser Nat String) := [literal "ax", spoiling, literal "ab", literal "a"]
    let c := Context.start ['a', 'b', 'c'] 0
    ps ≠ [] ∧ (∀ p ∈ ps, p.Answers c) ∧
    or (literal "ax") (or (or spoiling (literal "ab")) (literal "a")) c = choice ps c ∧
    (choice ps c).result = .ok (.success "ab" (c.advance 2)) ∧
    ∃ before p after, ps = before ++ p :: after ∧ (∀ q ∈ before, q.Fails c) ∧
      (p.Succeeds c ∨ p.Fails c ∧ after = []) ∧
      choice ps c = ⟨fallbacks c before ++ (p c).trace, (p c).result⟩ := by
  intro spoiling ps c
  have hps : ps ≠ [] := List.cons_ne_nil _ _
  have hanswers : ∀ p ∈ ps, p.Answers c := by
    simp only [ps, List.forall_mem_cons]
    exact ⟨⟨_, _, rfl⟩, ⟨_, _, rfl⟩, ⟨_, _, rfl⟩, ⟨_, _, rfl⟩, List.forall_mem_nil _⟩
  obtain ⟨hgrouped, hsplit⟩ := grouped_alternatives hps hanswers
  let g : Grouping Nat String := .both (.single (literal "ax"))
    (.both (.both (.single spoiling) (.single (literal "ab"))) (.single (literal "a")))
  exact ⟨hps, hanswers, hgrouped g rfl, rfl, hsplit⟩

end Parser

end StreamParser
