import StreamParser.Proofs.Descent

/-!
# Grammars without left recursion

A reference is early if nothing that has to consume stands before it. If no rule leads back to itself
through early references alone, every run comes to an end: between two visits of a rule either the
rank of the rule falls or less remains to be read. The depth that is needed depends only on how much
there is to read.
-/

namespace StreamParser

namespace Grammar

variable {κ ρ : Type} {τ : ρ → Type} {σ α β γ : Type}

/-- Every success of the grammar consumes something; references are not looked into. -/
def mustConsume : {α : Type} → Grammar κ τ σ α → Bool
  | _, char _ | _, notChar _ | _, satisfy _ _ | _, noChoice | _, charsUntil _ | _, pattern _ => true
  | _, or a b => a.mustConsume && b.mustConsume
  | _, pair a b => a.mustConsume || b.mustConsume
  | _, andThen a b => a.mustConsume || b.mustConsume
  | _, map _ a => a.mustConsume
  | _, many1 a => a.mustConsume
  | _, nested a => a.mustConsume
  | _, _ => false

/-- The rules a grammar can come to without passing a part that has to consume. -/
def Early : {α : Type} → Grammar κ τ σ α → ρ → Prop
  | _, or a b, r => a.Early r ∨ b.Early r
  | _, pair a b, r => a.Early r ∨ (a.mustConsume = false ∧ b.Early r)
  | _, andThen a b, r => a.Early r ∨ (a.mustConsume = false ∧ b.Early r)
  | _, map _ a, r => a.Early r
  | _, many a, r => a.Early r
  | _, many1 a, r => a.Early r
  | _, optional a, r => a.Early r
  | _, nested a, r => a.Early r
  | _, ref q, r => q = r
  | _, foreign _ _ a, r => a.Early r
  | _, _, _ => False

def EarlyIn (rules : (r : ρ) → Grammar κ τ σ (τ r)) (r q : ρ) : Prop := (rules r).Early q

/-! ### The derived forms -/

theorem mustConsume_foldl_or (a : Grammar κ τ σ α) (as : List (Grammar κ τ σ α)) :
    (as.foldl or a).mustConsume = (a.mustConsume && as.all mustConsume) := by
  induction as generalizing a with
  | nil => simp
  | cons b as ih => rw [List.foldl_cons, ih, mustConsume, List.all_cons, Bool.and_assoc]

@[simp] theorem mustConsume_choice (as : List (Grammar κ τ σ α)) :
    (choice as).mustConsume = as.all mustConsume := by
  cases as with
  | nil => rfl
  | cons a as => exact mustConsume_foldl_or a as

@[simp] theorem mustConsume_sequence (as : List (Grammar κ τ σ α)) :
    (sequence as).mustConsume = as.any mustConsume := by
  induction as with
  | nil => rfl
  | cons a as ih => rw [sequence, mustConsume, mustConsume, ih, List.any_cons]

@[simp] theorem mustConsume_literal (text : String) :
    (literal text : Grammar κ τ σ String).mustConsume = !text.toList.isEmpty := by
  rw [literal, mustConsume, mustConsume_sequence, List.any_map]
  cases text.toList with
  | nil => rfl
  | cons x xs => rw [List.any_cons]; rfl

@[simp] theorem mustConsume_literalThenSpace (text : String) :
    (literalThenSpace text : Grammar κ τ σ String).mustConsume = true := by
  rw [literalThenSpace, terminated, mustConsume, mustConsume, space, mustConsume, Bool.or_true]

@[simp] theorem mustConsume_between (a : Grammar κ τ σ α) (b : Grammar κ τ σ β)
    (d : Grammar κ τ σ γ) :
    (between a b d).mustConsume = (a.mustConsume || (b.mustConsume || d.mustConsume)) := rfl

/-! ### Progress -/

variable {rules : (r : ρ) → Grammar Empty τ σ (τ r)} {c d : Context σ} {t : List Event}

theorem Yields.byteSize_lt {g : Grammar Empty τ σ α} {o : Outcome σ α} (h : Yields rules g c t o)
    (hg : g.mustConsume = true) (ho : o.isSuccess = true) :
    byteSize o.context.remaining < byteSize c.remaining := by
  induction h with
  | charEnd | charOther | notCharEnd | notCharFound | satisfyEnd | satisfyOther | endOther
  | noChoice | charsUntilEmpty | patternEnd | patternOther | pairFirst | pairSecond | andThenFirst
  | many1Failed | nestedRefused => cases ho
  | endFound | just | state | update | skipSpaces | manyFailed | manyStayed | manyMoved
  | optionalFound | optionalFailed | ref => cases hg
  | @charFound x c rest hr => exact Context.byteSize_consume_lt hr (List.cons_ne_nil x [])
  | @notCharOther x y c rest hr _ =>
    exact Context.byteSize_consume_lt hr (List.cons_ne_nil y [])
  | @satisfyFound label p y c rest hr _ =>
    exact Context.byteSize_consume_lt hr (List.cons_ne_nil y [])
  | @charsUntilRun x c text hr hw =>
    rw [← Parser.without_append_dropWhile x text] at hr
    exact Context.byteSize_consume_lt hr hw
  | patternFound _ hr hm =>
    obtain ⟨taken, hsplit, hne, -⟩ := Pattern.match?_split hm
    rw [List.append_cancel_right hsplit] at hr ⊢
    exact Context.byteSize_consume_lt hr hne
  | orFirst _ ih =>
    rw [mustConsume, Bool.and_eq_true] at hg
    exact ih hg.1 ho
  | orSecond _ _ _ ihb =>
    rw [mustConsume, Bool.and_eq_true] at hg
    exact ihb hg.2 ho
  | pairBoth ha hb iha ihb =>
    have hle := ha.reaches.byteSize_le
    have hle' := hb.reaches.byteSize_le
    rw [mustConsume, Bool.or_eq_true] at hg
    rcases hg with hg | hg
    · exact Nat.lt_of_le_of_lt hle' (iha hg rfl)
    · exact Nat.lt_of_lt_of_le (ihb hg rfl) hle
  | andThenBoth ha hb iha ihb =>
    have hle := ha.reaches.byteSize_le
    have hle' := hb.reaches.byteSize_le
    rw [mustConsume, Bool.or_eq_true] at hg
    rw [Outcome.isSuccess_map] at ho
    rw [Outcome.context_map]
    rcases hg with hg | hg
    · exact Nat.lt_of_le_of_lt hle' (iha hg rfl)
    · exact Nat.lt_of_lt_of_le (ihb hg ho) hle
  | map _ ih =>
    rw [Outcome.isSuccess_map] at ho
    rw [Outcome.context_map]
    exact ih hg ho
  | many1Found _ hrest iha _ =>
    exact Nat.lt_of_le_of_lt hrest.reaches.byteSize_le (iha hg rfl)
  | nestedAllowed _ _ ih =>
    rw [Outcome.isSuccess_withLevel] at ho
    rw [Outcome.context_withLevel]
    exact ih hg ho

/-! ### Runs end -/

/-- At this depth every rule ends where there is less to read than on `c`, and the rules in `early`
also where there is as much. -/
def RulesEnd (rules : (r : ρ) → Grammar Empty τ σ (τ r)) (depth : Nat) (c : Context σ)
    (early : ρ → Prop) : Prop :=
  ∀ r (d : Context σ), byteSize d.remaining < byteSize c.remaining ∨
    (byteSize d.remaining = byteSize c.remaining ∧ early r) → (unfold rules depth r d).Ends

namespace RulesEnd

variable {depth : Nat} {early early' : ρ → Prop}

theorem mono (h : RulesEnd rules depth c early) (he : ∀ r, early' r → early r) :
    RulesEnd rules depth c early' := by
  intro r d hcase
  rcases hcase with hlt | ⟨heq, hr⟩
  · exact h r d (.inl hlt)
  · exact h r d (.inr ⟨heq, he r hr⟩)

theorem of_le (h : RulesEnd rules depth c early) (hd : byteSize d.remaining ≤ byteSize c.remaining) :
    RulesEnd rules depth d early := by
  intro r e hcase
  rcases hcase with hlt | ⟨heq, hr⟩
  · exact h r e (.inl (by omega))
  · rcases Nat.lt_or_eq_of_le hd with hlt | heq'
    · exact h r e (.inl (by omega))
    · exact h r e (.inr ⟨heq.trans heq', hr⟩)

theorem of_lt (h : RulesEnd rules depth c early) (hd : byteSize d.remaining < byteSize c.remaining)
    (early' : ρ → Prop) : RulesEnd rules depth d early' := by
  intro r e hcase
  rcases hcase with hlt | ⟨heq, -⟩
  · exact h r e (.inl (by omega))
  · exact h r e (.inl (by omega))

theorem second {a : Grammar Empty τ σ α} {b : Grammar Empty τ σ β} {v : α}
    (h : RulesEnd rules depth c fun r => a.Early r ∨ (a.mustConsume = false ∧ b.Early r))
    (ha : run rules depth a c = ⟨t, .ok (.success v d)⟩) : RulesEnd rules depth d b.Early := by
  have hy := yields_of_run ha
  cases hm : a.mustConsume with
  | true => exact h.of_lt (hy.byteSize_lt hm rfl) _
  | false => exact (h.of_le hy.reaches.byteSize_le).mono fun r hr => .inr ⟨hm, hr⟩

end RulesEnd

theorem prevents_unfinished (depth : Nat) : Prevents rules depth .unfinished
    fun g (c : Context σ) => RulesEnd rules depth c g.Early where
  placed _ hh := by cases hh
  or h := ⟨h.mono fun _ => .inl, h.mono fun _ => .inr⟩
  pair h := ⟨h.mono fun _ => .inl, fun _ _ _ ha => h.second ha⟩
  andThen h := ⟨h.mono fun _ => .inl, fun _ _ _ ha => h.second ha⟩
  map h := h
  many h hd := h.of_le hd.byteSize_le
  many1 h hd := h.of_le hd.byteSize_le
  optional h := h
  nested h _ := h
  ref {r c} h := h r c (.inr ⟨rfl, rfl⟩)

theorem run_ends {depth : Nat} (g : Grammar Empty τ σ α) (h : RulesEnd rules depth c g.Early) :
    (run rules depth g c).Ends := (prevents_unfinished depth).run_ne g h

theorem exists_depth_unfold_ends [Finite ρ]
    (acyclic : ∀ r, ¬ Relation.TransGen (EarlyIn rules) r r) (n : Nat) :
    ∃ depth₀, ∀ depth ≥ depth₀, ∀ r (c : Context σ), byteSize c.remaining ≤ n →
      (unfold rules depth r c).Ends := by
  obtain ⟨depth₀, h⟩ := exists_depth_of_descent acyclic (fun _ => True)
    (fun c : Context σ => byteSize c.remaining)
    (fun depth r c _ hless => run_ends (rules r) fun q d => hless q d trivial) n
  exact ⟨depth₀, fun depth hd r c hc => h depth hd r c trivial hc⟩

theorem exists_run_of_acyclic [Finite ρ] (acyclic : ∀ r, ¬ Relation.TransGen (EarlyIn rules) r r)
    (g : Grammar Empty τ σ α) (hc : c.Placed) : ∃ depth t o, run rules depth g c = ⟨t, .ok o⟩ := by
  obtain ⟨depth, hrules⟩ := exists_depth_unfold_ends acyclic (byteSize c.remaining)
  have hends : (run rules depth g c).Ends := by
    apply run_ends g
    intro r d hd
    exact hrules depth (Nat.le_refl _) r d (by omega)
  obtain ⟨o, ho⟩ := exists_outcome_of_ends hc hends
  exact ⟨depth, (run rules depth g c).trace, o, Run.ext rfl ho⟩

/-- Without a cycle of early references every run comes to an end that no greater depth changes,
and to an outcome wherever the text can be read. -/
theorem run_terminates [Finite ρ] (acyclic : ∀ r, ¬ Relation.TransGen (EarlyIn rules) r r)
    (g : Grammar Empty τ σ α) (c : Context σ) :
    ∃ depth₀ x, (∀ depth ≥ depth₀, run rules depth g c = x) ∧ x.result ≠ .error .unfinished ∧
      (c.Placed → ∃ o, x.result = .ok o) := by
  obtain ⟨depth₀, hrules⟩ := exists_depth_unfold_ends acyclic (byteSize c.remaining)
  have hends : (run rules depth₀ g c).Ends := by
    refine run_ends g fun r d hd => hrules depth₀ (Nat.le_refl _) r d ?_
    rcases hd with hlt | ⟨heq, -⟩
    · exact Nat.le_of_lt hlt
    · exact Nat.le_of_eq heq
  exact ⟨depth₀, run rules depth₀ g c, fun depth hd => run_extends hd g c hends, hends,
    fun hc => exists_outcome_of_ends hc hends⟩

/-- Groups in brackets: any number of them, each of which may be missing, side by side or inside one
another. -/
def groups : Bool → Grammar Empty (fun _ : Bool => Nat) Nat Nat
  | true => map List.length (many (optional (ref false)))
  | false => or (between (char '(') (ref true) (char ')')) (just 0)

theorem groups_early {r q : Bool} (h : EarlyIn groups r q) : r = true ∧ q = false := by
  cases r with
  | true =>
    have hq : false = q := h
    exact ⟨rfl, hq.symm⟩
  | false =>
    rcases h with (h | ⟨h, -⟩) | h
    · exact h.elim
    · cases h
    · exact h.elim

theorem groups_terminates :
    (∀ r, ¬ Relation.TransGen (EarlyIn groups) r r) ∧
    ∃ depth₀ x, (∀ depth ≥ depth₀,
        run groups depth (many1 (ref true)) (Context.start ['(', '(', ')', 'x'] 0) = x) ∧
      x.result ≠ .error .unfinished ∧
      ((Context.start ['(', '(', ')', 'x'] 0).Placed → ∃ o, x.result = .ok o) := by
  have acyclic (r : Bool) : ¬ Relation.TransGen (EarlyIn groups) r r := by
    intro h
    obtain ⟨q, hfirst, -⟩ := Relation.TransGen.head'_iff.mp h
    obtain ⟨q', -, hlast⟩ := Relation.TransGen.tail'_iff.mp h
    have htrue := (groups_early hfirst).1
    have hfalse := (groups_early hlast).2
    rw [htrue] at hfalse
    cases hfalse
  exact ⟨acyclic, run_terminates acyclic (many1 (ref true)) (Context.start ['(', '(', ')', 'x'] 0)⟩

end Grammar

end StreamParser
