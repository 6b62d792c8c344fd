import StreamParser.Context

/-!
# Advancing

The algebra of contexts: advancing adds up, commutes with changes of state and of nest level, and
drops from what remains exactly the characters it passes. `Reaches c d` says that `d` is `c` after
some characters and perhaps with another state; all other fields are then those of `c`.
-/

namespace StreamParser

theorem byteSize_pos {cs : List Char} (h : cs ≠ []) : 0 < byteSize cs := by
  cases cs with
  | nil => exact absurd rfl h
  | cons c cs =>
    have hc := c.utf8Size_pos
    simp only [byteSize_cons]
    omega

theorem byteSize_take_drop (cs : List Char) (k : Nat) :
    byteSize (cs.take k) + byteSize (cs.drop k) = byteSize cs := by
  rw [← byteSize_append, List.take_append_drop]

theorem byteSize_drop_le (cs : List Char) (k : Nat) : byteSize (cs.drop k) ≤ byteSize cs := by
  have h := byteSize_take_drop cs k
  omega

theorem byteSize_lt_of_suffix {as bs : List Char} (h : as <:+ bs) (hlt : as.length < bs.length) :
    byteSize as < byteSize bs := by
  obtain ⟨before, rfl⟩ := h
  have hpos : 0 < byteSize before := by
    apply byteSize_pos
    rintro rfl
    exact Nat.lt_irrefl _ hlt
  rw [byteSize_append]
  omega

namespace Position

@[simp] theorem advance_stream (p : Position) (cs : List Char) :
    (p.advance cs).stream = p.stream := by
  induction cs generalizing p with
  | nil => rfl
  | cons c cs ih => rw [advance_cons, ih, next_stream]

@[simp] theorem advance_index (p : Position) (cs : List Char) :
    (p.advance cs).index = p.index + cs.length := by
  induction cs generalizing p with
  | nil => rfl
  | cons c cs ih =>
    rw [advance_cons, ih, next_index, List.length_cons]
    omega

theorem next_line (p : Position) (c : Char) :
    (p.next c).line = p.line + if c = '\n' then 1 else 0 := by
  unfold next
  split <;> rfl

@[simp] theorem advance_line (p : Position) (cs : List Char) :
    (p.advance cs).line = p.line + cs.count '\n' := by
  induction cs generalizing p with
  | nil => rfl
  | cons c cs ih =>
    rw [advance_cons, ih, next_line, List.count_cons]
    by_cases hc : c = '\n'
    · simp only [hc, beq_self_eq_true, if_true]
      omega
    · simp only [hc, beq_iff_eq, if_false]
      omega

end Position

namespace Context

variable {σ : Type}

@[simp] theorem remaining?_withState (c : Context σ) (s : σ) :
    (c.withState s).remaining? = c.remaining? := rfl

@[simp] theorem remaining?_withLevel (c : Context σ) (l : Nat) :
    (c.withLevel l).remaining? = c.remaining? := rfl

@[simp] theorem remaining_withState (c : Context σ) (s : σ) :
    (c.withState s).remaining = c.remaining := rfl

@[simp] theorem remaining_withLevel (c : Context σ) (l : Nat) :
    (c.withLevel l).remaining = c.remaining := rfl

@[simp] theorem withState_self (c : Context σ) : c.withState c.state = c := rfl

@[simp] theorem withState_withState (c : Context σ) (s t : σ) :
    (c.withState s).withState t = c.withState t := rfl

@[simp] theorem withLevel_self (c : Context σ) : c.withLevel c.nestLevel = c := rfl

@[simp] theorem withLevel_withLevel (c : Context σ) (l m : Nat) :
    (c.withLevel l).withLevel m = c.withLevel m := rfl

theorem advance_withState (c : Context σ) (s : σ) (k : Nat) :
    (c.withState s).advance k = (c.advance k).withState s := rfl

theorem advance_withLevel (c : Context σ) (l k : Nat) :
    (c.withLevel l).advance k = (c.advance k).withLevel l := rfl

theorem remaining?_of_placed {c : Context σ} (h : c.Placed) : c.remaining? = some c.remaining := by
  obtain ⟨rest, hr⟩ := Option.isSome_iff_exists.mp h
  rw [hr, remaining_eq hr]

theorem not_placed_iff {c : Context σ} : ¬ c.Placed ↔ c.remaining? = none := by
  rw [Placed, Bool.not_eq_true, Option.isSome_eq_false_iff, Option.isNone_iff_eq_none]

theorem advance_of_misplaced {c : Context σ} (h : c.remaining? = none) (k : Nat) :
    c.advance k = c := by
  have hr : c.remaining = [] := by simp [remaining, h]
  rw [advance, hr, List.take_nil, consume_nil]

@[simp] theorem advance_zero (c : Context σ) : c.advance 0 = c := by
  rw [advance, List.take_zero, consume_nil]

theorem consume_eq_advance {c : Context σ} {taken rest : List Char}
    (h : c.remaining? = some (taken ++ rest)) : c.consume taken = c.advance taken.length := by
  rw [advance, remaining_eq h, List.take_left]

section Head

variable {c : Context σ} {x : Char} {rest : List Char}

theorem remaining?_consume_head (h : c.remaining? = some (x :: rest)) :
    (c.consume [x]).remaining? = some rest := by
  have hsplit : c.remaining? = some ([x] ++ rest) := h
  exact remaining?_consume hsplit

theorem consume_head_eq_advance (h : c.remaining? = some (x :: rest)) : c.consume [x] = c.advance 1 := by
  have hsplit : c.remaining? = some ([x] ++ rest) := h
  exact consume_eq_advance hsplit

end Head

theorem remaining_eq_append {c : Context σ} {taken rest : List Char}
    (h : c.remaining? = some (taken ++ rest)) : c.remaining = taken ++ (c.consume taken).remaining := by
  rw [remaining_eq h, remaining_eq (remaining?_consume h)]

theorem remaining_eq_cons {c : Context σ} {x : Char} {rest : List Char}
    (h : c.remaining? = some (x :: rest)) : c.remaining = x :: (c.consume [x]).remaining := by
  have hsplit : c.remaining? = some ([x] ++ rest) := h
  exact remaining_eq_append hsplit

theorem byteSize_consume_lt {c : Context σ} {taken rest : List Char}
    (h : c.remaining? = some (taken ++ rest)) (hne : taken ≠ []) :
    byteSize (c.consume taken).remaining < byteSize c.remaining := by
  have hpos := byteSize_pos hne
  rw [remaining_eq (remaining?_consume h), remaining_eq h, byteSize_append]
  omega

theorem remaining?_advance (c : Context σ) (k : Nat) :
    (c.advance k).remaining? = c.remaining?.map (List.drop k) := by
  cases h : c.remaining? with
  | none => rw [advance_of_misplaced h, h, Option.map_none]
  | some rest =>
    have hsplit : c.remaining? = some (rest.take k ++ rest.drop k) := by
      rw [h, List.take_append_drop]
    rw [advance, remaining_eq h]
    exact remaining?_consume hsplit

@[simp] theorem remaining_advance (c : Context σ) (k : Nat) :
    (c.advance k).remaining = c.remaining.drop k := by
  rw [remaining, remaining, remaining?_advance]
  cases c.remaining? <;> simp

theorem advance_advance (c : Context σ) (m n : Nat) :
    (c.advance m).advance n = c.advance (m + n) := by
  have hn : (c.advance m).advance n = (c.advance m).consume ((c.remaining.drop m).take n) := by
    rw [advance, remaining_advance]
  rw [hn, advance, advance, ← consume_append, ← List.take_add]

@[simp] theorem position_advance (c : Context σ) (k : Nat) :
    (c.advance k).position = c.position.advance (c.remaining.take k) := rfl

/-- `d` is `c` after some of what remains, perhaps with another state. -/
def Reaches (c d : Context σ) : Prop :=
  ∃ s k, k ≤ c.remaining.length ∧ d = (c.withState s).advance k

namespace Reaches

variable {c d e : Context σ}

theorem refl (c : Context σ) : c.Reaches c := ⟨c.state, 0, Nat.zero_le _, by simp⟩

theorem withState (c : Context σ) (s : σ) : c.Reaches (c.withState s) :=
  ⟨s, 0, Nat.zero_le _, by simp⟩

theorem consume {taken rest : List Char} (h : c.remaining? = some (taken ++ rest)) :
    c.Reaches (c.consume taken) := by
  refine ⟨c.state, taken.length, ?_, ?_⟩
  · rw [remaining_eq h, List.length_append]
    omega
  · rw [withState_self, consume_eq_advance h]

theorem consume_head {x : Char} {rest : List Char} (h : c.remaining? = some (x :: rest)) :
    c.Reaches (c.consume [x]) := by
  have hsplit : c.remaining? = some ([x] ++ rest) := h
  exact .consume hsplit

theorem trans (hcd : c.Reaches d) (hde : d.Reaches e) : c.Reaches e := by
  obtain ⟨s, k, hk, rfl⟩ := hcd
  obtain ⟨t, m, hm, rfl⟩ := hde
  refine ⟨t, k + m, ?_, ?_⟩
  · simp only [remaining_advance, remaining_withState, List.length_drop] at hm
    omega
  · calc (((c.withState s).advance k).withState t).advance m
        = ((c.advance k).advance m).withState t := rfl
      _ = (c.advance (k + m)).withState t := by rw [advance_advance]
      _ = (c.withState t).advance (k + m) := rfl

theorem ofLevel {l : Nat} (h : (c.withLevel l).Reaches d) : c.Reaches (d.withLevel c.nestLevel) := by
  obtain ⟨s, k, hk, rfl⟩ := h
  exact ⟨s, k, hk, rfl⟩

theorem remaining?_eq (h : c.Reaches d) : ∃ k, d.remaining? = c.remaining?.map (List.drop k) := by
  obtain ⟨s, k, -, rfl⟩ := h
  exact ⟨k, by rw [remaining?_advance, remaining?_withState]⟩

theorem input_eq (h : c.Reaches d) : d.input = c.input := by
  obtain ⟨s, k, -, rfl⟩ := h
  rfl

theorem options_eq (h : c.Reaches d) : d.options = c.options := by
  obtain ⟨s, k, -, rfl⟩ := h
  rfl

theorem nestLevel_eq (h : c.Reaches d) : d.nestLevel = c.nestLevel := by
  obtain ⟨s, k, -, rfl⟩ := h
  rfl

theorem placed (h : c.Reaches d) (hc : c.Placed) : d.Placed := by
  obtain ⟨k, hk⟩ := h.remaining?_eq
  simpa [Placed, hk] using hc

theorem remaining_suffix (h : c.Reaches d) : d.remaining <:+ c.remaining := by
  obtain ⟨s, k, -, rfl⟩ := h
  rw [remaining_advance, remaining_withState]
  exact List.drop_suffix k c.remaining

theorem byteSize_le (h : c.Reaches d) : byteSize d.remaining ≤ byteSize c.remaining := by
  obtain ⟨s, k, -, rfl⟩ := h
  rw [remaining_advance, remaining_withState]
  exact byteSize_drop_le _ _

end Reaches

end Context

end StreamParser
