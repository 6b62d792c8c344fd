import StreamParser.Proofs.Halting
import StreamParser.Proofs.Operations

/-!
# Going on from another context's place

A context that is moved to the place of another takes over an offset that was counted in the input of
the other. It can be read there if its own input has a first part of as many bytes, and surely if both
have the same input. As long as contexts are moved to such places only, every context in hand can be
read; nothing else that a caller does is in the way.
-/

namespace StreamParser

namespace Context

variable {σ α : Type} {c other : Context σ}

/-- The offset of `other` falls on a character boundary of the input of `c`. -/
def HasPlaceOf (c other : Context σ) : Prop :=
  ∃ before after, c.input = before ++ after ∧ byteSize before = other.offset

theorem placed_movedTo : (c.movedTo other).Placed ↔ c.HasPlaceOf other := by
  unfold Placed HasPlaceOf remaining?
  rw [Option.isSome_iff_exists]
  constructor
  · rintro ⟨after, h⟩
    obtain ⟨before, hinput, hoffset⟩ := dropBytes?_eq_some_iff.mp h
    exact ⟨before, after, hinput, hoffset⟩
  · rintro ⟨before, after, hinput, hoffset⟩
    exact ⟨after, dropBytes?_eq_some_iff.mpr ⟨before, hinput, hoffset⟩⟩

theorem hasPlaceOf_of_input_eq (h : other.Placed) (hinput : c.input = other.input) :
    c.HasPlaceOf other := by
  obtain ⟨before, hsplit, hoffset⟩ := dropBytes?_eq_some_iff.mp (remaining?_of_placed h)
  exact ⟨before, other.remaining, hinput.trans hsplit, hoffset⟩

theorem remaining_suffix (h : c.Placed) : c.remaining <:+ c.input := by
  obtain ⟨before, hsplit, -⟩ := dropBytes?_eq_some_iff.mp (remaining?_of_placed h)
  exact ⟨before, hsplit.symm⟩

theorem reading_of_placed (h : c.Placed) {β : Type} (f : List Char → Run β) :
    c.reading f = f c.remaining := reading_of_remaining? (remaining?_of_placed h) f

end Context

def Usage.inPlace (σ : Type) : Usage σ := ⟨Context.HasPlaceOf, fun _ _ => True⟩

theorem kept_placed (σ : Type) : Kept (Usage.inPlace σ) Context.Placed where
  start input s := by simp [Context.Placed]
  withStream hc _ := hc
  withOptions hc _ _ := hc
  reaches hc hd := hd.placed hc
  deeper hc _ := hc
  movedTo _ _ hmoves := Context.placed_movedTo.mpr hmoves

variable {σ α : Type}

/-- Every context in hand can be read, and so can a context that goes on from the place of another, if
and only if it has that place. It has it if both have the same input. -/
theorem succeedFrom_placed_iff {held : List (Context σ)} (h : InHand (Usage.inPlace σ) held)
    {a b : Context σ} (ha : a ∈ held) (hb : b ∈ held) (v : α) :
    a.Placed ∧ b.Placed ∧
    ((a.succeedFrom v b).context.Placed ↔ a.HasPlaceOf b) ∧
    (a.input = b.input → a.HasPlaceOf b) ∧
    (a.HasPlaceOf b → (a.succeedFrom v b).context.remaining <:+ a.input ∧
      (∀ {β : Type} (f : List Char → Run β), (a.succeedFrom v b).context.reading f =
        f (a.succeedFrom v b).context.remaining) ∧
      ∀ {ρ : Type} {τ : ρ → Type} {β : Type} (rules : (r : ρ) → Grammar Empty τ σ (τ r))
        (depth : Nat) (g : Grammar Empty τ σ β),
        (Grammar.run rules depth g (a.succeedFrom v b).context).result ≠ .error .misplaced) := by
  have hplaced := (kept_placed σ).of_inHand h
  refine ⟨hplaced a ha, hplaced b hb, Context.placed_movedTo,
    Context.hasPlaceOf_of_input_eq (hplaced b hb), fun hplace => ?_⟩
  have hmoved : (a.movedTo b).Placed := Context.placed_movedTo.mpr hplace
  exact ⟨Context.remaining_suffix hmoved, fun f => Context.reading_of_placed hmoved f,
    fun rules depth g => Grammar.run_ne_misplaced depth g hmoved⟩

/-- A copy of a context with another state goes on from where the context has come to, in the middle of
characters of two bytes. -/
theorem succeedFrom_placed_in_same_input :
    let c := Context.start ['a', 'é', 'b'] 0
    InHand (Usage.inPlace Nat) [c.withState 1, c.advance 2, c] ∧
    ((c.withState 1).succeedFrom () (c.advance 2)).context.Placed ∧
    ((c.withState 1).succeedFrom () (c.advance 2)).context.remaining <:+ ['a', 'é', 'b'] := by
  intro c
  have hstart : InHand (Usage.inPlace Nat) [c] := .more .none (.start _ _)
  have hadvance : InHand (Usage.inPlace Nat) [c.advance 2, c] :=
    .more hstart (.advance List.mem_cons_self (by decide) 2)
  have hstate : InHand (Usage.inPlace Nat) [c.withState 1, c.advance 2, c] :=
    .more hadvance (.withState (List.mem_cons_of_mem _ List.mem_cons_self) 1)
  obtain ⟨-, -, hiff, hsame, hread⟩ := succeedFrom_placed_iff hstate List.mem_cons_self
    (List.mem_cons_of_mem _ List.mem_cons_self) ()
  exact ⟨hstate, hiff.mpr (hsame rfl), (hread (hsame rfl)).1⟩

/-- A context of an empty input at a place behind the first character of another input. -/
theorem succeedFrom_other_input_not_placed :
    let a := Context.start [] ()
    let b := Context.start ['x'] ()
    InHand (Usage.careless Unit) [b.advance 1, b, a] ∧
    ¬(a.succeedFrom () (b.advance 1)).context.Placed := by
  intro a b
  have hstarts : InHand (Usage.careless Unit) [b, a] := .more (.more .none (.start _ _)) (.start _ _)
  exact ⟨.more hstarts (.advance List.mem_cons_self (by decide) 1), by decide⟩

end StreamParser
