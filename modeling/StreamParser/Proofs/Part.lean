import StreamParser.Grammar

/-!
# Parts of a grammar

A part of a grammar stands in it, or in a rule that it refers to, or in a rule that such a rule refers
to, and so on. What is true of a grammar because of what it does not hold is said of its parts.
-/

namespace StreamParser

namespace Grammar

variable {ρ : Type} {τ : ρ → Type} {σ α β γ : Type}

/-- `h` is a part of the grammar, which may lie behind references. -/
inductive HasPart (rules : (r : ρ) → Grammar Empty τ σ (τ r)) {β : Type} (h : Grammar Empty τ σ β) :
    {α : Type} → Grammar Empty τ σ α → Prop where
  | self : HasPart rules h h
  | orLeft {α : Type} {a : Grammar Empty τ σ α} (b : Grammar Empty τ σ α)
      (ha : HasPart rules h a) : HasPart rules h (.or a b)
  | orRight {α : Type} (a : Grammar Empty τ σ α) {b : Grammar Empty τ σ α}
      (hb : HasPart rules h b) : HasPart rules h (.or a b)
  | pairLeft {α γ : Type} {a : Grammar Empty τ σ α} (b : Grammar Empty τ σ γ)
      (ha : HasPart rules h a) : HasPart rules h (.pair a b)
  | pairRight {α γ : Type} (a : Grammar Empty τ σ α) {b : Grammar Empty τ σ γ}
      (hb : HasPart rules h b) : HasPart rules h (.pair a b)
  | andThenLeft {α γ : Type} {a : Grammar Empty τ σ α} (b : Grammar Empty τ σ γ)
      (ha : HasPart rules h a) : HasPart rules h (.andThen a b)
  | andThenRight {α γ : Type} (a : Grammar Empty τ σ α) {b : Grammar Empty τ σ γ}
      (hb : HasPart rules h b) : HasPart rules h (.andThen a b)
  | map {α γ : Type} (f : α → γ) {a : Grammar Empty τ σ α} (ha : HasPart rules h a) :
      HasPart rules h (.map f a)
  | many {α : Type} {a : Grammar Empty τ σ α} (ha : HasPart rules h a) : HasPart rules h (.many a)
  | many1 {α : Type} {a : Grammar Empty τ σ α} (ha : HasPart rules h a) : HasPart rules h (.many1 a)
  | optional {α : Type} {a : Grammar Empty τ σ α} (ha : HasPart rules h a) :
      HasPart rules h (.optional a)
  | nested {α : Type} {a : Grammar Empty τ σ α} (ha : HasPart rules h a) :
      HasPart rules h (.nested a)
  | ref {r : ρ} (hr : HasPart rules h (rules r)) : HasPart rules h (.ref r)

variable {rules : (r : ρ) → Grammar Empty τ σ (τ r)}
variable {g : Grammar Empty τ σ α} {h : Grammar Empty τ σ β} {k : Grammar Empty τ σ γ}

theorem HasPart.trans (hk : HasPart rules k h) (hh : HasPart rules h g) : HasPart rules k g := by
  induction hh with
  | self => exact hk
  | orLeft b _ ih => exact .orLeft b ih
  | orRight a _ ih => exact .orRight a ih
  | pairLeft b _ ih => exact .pairLeft b ih
  | pairRight a _ ih => exact .pairRight a ih
  | andThenLeft b _ ih => exact .andThenLeft b ih
  | andThenRight a _ ih => exact .andThenRight a ih
  | map f _ ih => exact .map f ih
  | many _ ih => exact .many ih
  | many1 _ ih => exact .many1 ih
  | optional _ ih => exact .optional ih
  | nested _ ih => exact .nested ih
  | ref _ ih => exact .ref ih

/-- The state is read as a value; references are not looked into. -/
def readsState : {α : Type} → Grammar Empty τ σ α → Bool
  | _, state => true
  | _, or a b => a.readsState || b.readsState
  | _, pair a b => a.readsState || b.readsState
  | _, andThen a b => a.readsState || b.readsState
  | _, map _ a => a.readsState
  | _, many a => a.readsState
  | _, many1 a => a.readsState
  | _, optional a => a.readsState
  | _, nested a => a.readsState
  | _, _ => false

theorem not_hasPart_state (hrules : ∀ r, (rules r).readsState = false) (hg : g.readsState = false) :
    ¬ HasPart rules (state : Grammar Empty τ σ σ) g := by
  intro hs
  induction hs with
  | self => cases hg
  | orLeft _ _ ih | pairLeft _ _ ih | andThenLeft _ _ ih => exact ih (Bool.or_eq_false_iff.mp hg).1
  | orRight _ _ ih | pairRight _ _ ih | andThenRight _ _ ih =>
    exact ih (Bool.or_eq_false_iff.mp hg).2
  | map _ _ ih => exact ih hg
  | many _ ih | many1 _ ih | optional _ ih | nested _ ih => exact ih hg
  | ref _ ih => exact ih (hrules _)

def leavesState : {α : Type} → Grammar Empty τ σ α → Bool
  | _, state => false
  | _, update _ => false
  | _, or a b => a.leavesState && b.leavesState
  | _, pair a b => a.leavesState && b.leavesState
  | _, andThen a b => a.leavesState && b.leavesState
  | _, map _ a => a.leavesState
  | _, many a => a.leavesState
  | _, many1 a => a.leavesState
  | _, optional a => a.leavesState
  | _, nested a => a.leavesState
  | _, _ => true

theorem HasPart.leavesState (hh : HasPart rules h g) (hrules : ∀ r, (rules r).leavesState = true)
    (hg : g.leavesState = true) : h.leavesState = true := by
  induction hh with
  | self => exact hg
  | orLeft _ _ ih | pairLeft _ _ ih | andThenLeft _ _ ih => exact ih (Bool.and_eq_true_iff.mp hg).1
  | orRight _ _ ih | pairRight _ _ ih | andThenRight _ _ ih =>
    exact ih (Bool.and_eq_true_iff.mp hg).2
  | map _ _ ih => exact ih hg
  | many _ ih | many1 _ ih | optional _ ih | nested _ ih => exact ih hg
  | ref _ ih => exact ih (hrules _)

end Grammar

end StreamParser
