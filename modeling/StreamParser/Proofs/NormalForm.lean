import Mathlib.Data.List.DropRight
import StreamParser.Proofs.Splicing

/-!
# The normal form of a context

Whatever a caller does with the contexts that descend from one start, each of them is a start on the same
input with a state, a name, options and a level, advanced by some number of characters: offset, index, line
and column are counted apart from each other and never come apart. Contexts go on from one another's place
only if they have the same input, which contexts that descend from one start always have (`Makes.input_eq`).
-/

namespace StreamParser

namespace Position

theorem advance_withStream (p : Position) (stream : String) (cs : List Char) :
    ({ p with stream := stream } : Position).advance cs = { p.advance cs with stream := stream } := by
  induction cs generalizing p with
  | nil => rfl
  | cons c cs ih =>
    have hnext : ({ p with stream := stream } : Position).next c = { p.next c with stream := stream } := by
      unfold next
      split <;> rfl
    rw [advance_cons, advance_cons, hnext, ih]

theorem advance_column (p : Position) (cs : List Char) :
    (p.advance cs).column =
      if '\n' ∈ cs then (cs.rtakeWhile (· ≠ '\n')).length else p.column + cs.length := by
  induction cs using List.reverseRecOn with
  | nil => rfl
  | append_singleton cs c ih =>
    rw [advance_append, advance_cons, advance_nil]
    by_cases hc : c = '\n'
    · subst hc
      rw [if_pos (List.mem_append_right cs (List.mem_singleton.mpr rfl)),
        List.rtakeWhile_concat_neg _ _ _ (by decide)]
      rfl
    · have hnext : ((p.advance cs).next c).column = (p.advance cs).column + 1 := by
        unfold next
        rw [if_neg hc]
      have hmem : '\n' ∈ cs ++ [c] ↔ '\n' ∈ cs := by simp [Ne.symm hc]
      rw [hnext, ih, List.rtakeWhile_concat_pos _ _ _ (by simpa using hc), List.length_append,
        List.length_append, List.length_singleton]
      simp only [hmem]
      split <;> omega

theorem advance_start_column (stream : String) (cs : List Char) :
    ((start stream).advance cs).column = (cs.rtakeWhile (· ≠ '\n')).length := by
  rw [advance_column]
  split
  · rfl
  · rename_i hn
    have hall : cs.rtakeWhile (· ≠ '\n') = cs := by
      rw [List.rtakeWhile_eq_self_iff]
      intro c hc
      exact decide_eq_true fun h => hn (h ▸ hc)
    rw [hall, start, Nat.zero_add]

end Position

variable {σ : Type} {u : Usage σ} {held : List (Context σ)}

namespace Context

variable {c d other : Context σ} {k : Nat}

/-- Exactly the first `k` characters of the input are passed, by offset and by position. -/
structure StandsAt (c : Context σ) (k : Nat) : Prop where
  le : k ≤ c.input.length
  offset_eq : c.offset = byteSize (c.input.take k)
  position_eq : c.position = (Position.start c.position.stream).advance (c.input.take k)

namespace StandsAt

theorem start (input : List Char) (s : σ) : (Context.start input s).StandsAt 0 :=
  ⟨Nat.zero_le _, rfl, rfl⟩

theorem remaining? (h : c.StandsAt k) : c.remaining? = some (c.input.drop k) :=
  dropBytes?_eq_some_iff.mpr ⟨c.input.take k, (List.take_append_drop k c.input).symm, h.offset_eq.symm⟩

theorem withStream (h : c.StandsAt k) (stream : String) : (c.withStream stream).StandsAt k where
  le := h.le
  offset_eq := h.offset_eq
  position_eq := by
    show { c.position with stream := stream } = (Position.start stream).advance (c.input.take k)
    rw [h.position_eq]
    exact (Position.advance_withStream (.start c.position.stream) stream (c.input.take k)).symm

theorem advance (h : c.StandsAt k) {m : Nat} (hm : m ≤ c.remaining.length) :
    (c.advance m).StandsAt (k + m) := by
  have hrest : c.remaining = c.input.drop k := remaining_eq h.remaining?
  have htaken : c.input.take (k + m) = c.input.take k ++ c.remaining.take m := by
    rw [hrest, List.take_add]
  refine ⟨?_, ?_, ?_⟩
  · have hle := h.le
    rw [hrest, List.length_drop] at hm
    show k + m ≤ c.input.length
    omega
  · show c.offset + byteSize (c.remaining.take m) = byteSize (c.input.take (k + m))
    rw [htaken, byteSize_append, h.offset_eq]
  · have hstream : (c.advance m).position.stream = c.position.stream := Position.advance_stream _ _
    show c.position.advance (c.remaining.take m) =
      (Position.start (c.advance m).position.stream).advance (c.input.take (k + m))
    rw [hstream, htaken, Position.advance_append, ← h.position_eq]

theorem of_reaches (h : c.StandsAt k) (hd : c.Reaches d) : ∃ j, d.StandsAt j := by
  obtain ⟨s, m, hm, rfl⟩ := hd
  have hstate : (c.withState s).StandsAt k := ⟨h.le, h.offset_eq, h.position_eq⟩
  exact ⟨k + m, hstate.advance hm⟩

theorem movedTo (h : other.StandsAt k) (hinput : c.input = other.input) :
    (c.movedTo other).StandsAt k := by
  refine ⟨?_, ?_, ?_⟩
  · exact hinput ▸ h.le
  · show other.offset = byteSize (c.input.take k)
    rw [hinput, h.offset_eq]
  · show other.position = (Position.start other.position.stream).advance (c.input.take k)
    rw [hinput, ← h.position_eq]

theorem eq_advance (h : c.StandsAt k) :
    c = ((((Context.start c.input c.state).withStream c.position.stream).withOptions c.options).advance
      k).withLevel c.nestLevel := by
  have hrest : (((Context.start c.input c.state).withStream c.position.stream).withOptions
      c.options).remaining = c.input := remaining_eq (remaining?_start c.input c.state)
  have hoffset : c.offset = 0 + byteSize (c.input.take k) := by rw [h.offset_eq, Nat.zero_add]
  rw [Context.advance, hrest]
  calc c = { c with offset := 0 + byteSize (c.input.take k),
                    position := (Position.start c.position.stream).advance (c.input.take k) } := by
        rw [← hoffset, ← h.position_eq]
    _ = _ := rfl

end StandsAt

end Context

/-- Contexts go on from the place of another only if they have the same input. -/
def Usage.sameInput (σ : Type) : Usage σ := ⟨fun c other => c.input = other.input, fun _ _ => True⟩

theorem kept_standsAt (σ : Type) : Kept (Usage.sameInput σ) fun c => ∃ k, c.StandsAt k where
  start input s := ⟨0, .start input s⟩
  withStream hc stream := hc.imp fun _ h => h.withStream stream
  withOptions hc _ _ := hc.imp fun _ h => ⟨h.le, h.offset_eq, h.position_eq⟩
  reaches hc hd := by
    obtain ⟨k, h⟩ := hc
    exact h.of_reaches hd
  deeper hc _ := hc.imp fun _ h => ⟨h.le, h.offset_eq, h.position_eq⟩
  movedTo _ hother hmoves := hother.imp fun _ h => h.movedTo hmoves

theorem Makes.input_eq {d : Context σ} (h : Makes u held d) :
    (∃ s, d = .start d.input s) ∨ ∃ c ∈ held, d.input = c.input := by
  cases h with
  | start input s => exact .inl ⟨s, rfl⟩
  | withStream hc => exact .inr ⟨_, hc, rfl⟩
  | withOptions hc _ => exact .inr ⟨_, hc, rfl⟩
  | withState hc => exact .inr ⟨_, hc, rfl⟩
  | advance hc _ n => exact .inr ⟨_, hc, rfl⟩
  | advanceTo hc hd => exact .inr ⟨_, hc, (Context.reaches_of_advanceTo? hd).input_eq⟩
  | nest hc hd =>
    obtain ⟨-, rfl⟩ := Context.nest_eq_ok hd
    exact .inr ⟨_, hc, rfl⟩
  | succeed hc => exact .inr ⟨_, hc, rfl⟩
  | failWith hc => exact .inr ⟨_, hc, rfl⟩
  | succeedWith hc ho => exact .inr ⟨_, hc, (Context.reaches_of_succeedWith ho).input_eq⟩
  | succeedFrom hc => exact .inr ⟨_, hc, rfl⟩
  | parse hc ho => exact .inr ⟨_, hc, (Grammar.yields_of_run ho).reaches.input_eq⟩

theorem InHand.start_mem (h : InHand u held) : ∀ c ∈ held, ∃ s, Context.start c.input s ∈ held := by
  induction h with
  | none => exact fun c hc => by cases hc
  | more _ hmade ih =>
    rintro c (_ | ⟨_, hc⟩)
    · rcases hmade.input_eq with ⟨s, hs⟩ | ⟨b, hb, hinput⟩
      · exact ⟨s, hs ▸ List.mem_cons_self⟩
      · obtain ⟨s, hs⟩ := ih b hb
        exact ⟨s, List.mem_cons_of_mem _ (hinput ▸ hs)⟩
    · obtain ⟨s, hs⟩ := ih c hc
      exact ⟨s, List.mem_cons_of_mem _ hs⟩

/-- Every context in hand is, up to its level, a start that is in hand with some state, name and options,
advanced by as many characters as its index says; its line and column are counted off these characters,
what remains is the input without them, and nothing that is read of it can halt. -/
theorem normal_form_of_inHand (h : InHand (Usage.sameInput σ) held) {c : Context σ} (hc : c ∈ held) :
    (∃ s₀, Context.start c.input s₀ ∈ held) ∧
    ∃ s name o k, k ≤ c.input.length ∧
      c = ((((Context.start c.input s).withStream name).withOptions o).advance k).withLevel
        c.nestLevel ∧
      c.position.index = k ∧
      c.position.line = 1 + (c.input.take k).count '\n' ∧
      c.position.column = ((c.input.take k).rtakeWhile (· ≠ '\n')).length ∧
      c.remaining? = some (c.input.drop k) ∧
      (c.isEmpty = true ↔ k = c.input.length) ∧
      c.head? = c.input[k]? ∧ c.tail = c.input.drop (k + 1) ∧
      ∀ {β : Type} (f : List Char → Run β), c.reading f = f (c.input.drop k) := by
  refine ⟨h.start_mem c hc, ?_⟩
  obtain ⟨k, hk⟩ := (kept_standsAt σ).of_inHand h c hc
  have hrest : c.remaining = c.input.drop k := Context.remaining_eq hk.remaining?
  have hle : k ≤ c.input.length := hk.le
  refine ⟨c.state, c.position.stream, c.options, k, hle, hk.eq_advance, ?_, ?_, ?_, hk.remaining?, ?_,
    ?_, ?_, fun f => Context.reading_of_remaining? hk.remaining? f⟩
  · rw [hk.position_eq, Position.advance_index, List.length_take, Nat.min_eq_left hle]
    exact Nat.zero_add k
  · rw [hk.position_eq, Position.advance_line]
    rfl
  · rw [hk.position_eq, Position.advance_start_column]
  · rw [Context.isEmpty_iff hk.remaining?, List.drop_eq_nil_iff]
    omega
  · rw [Context.head?, hrest, List.head?_drop]
  · rw [Context.tail, hrest, List.tail_drop]

/-- A nested copy with another state goes on from a place behind a newline. -/
theorem normal_form_past_newline :
    let c := Context.start ['é', '\n', 'a', 'b'] 0
    let deep := (c.withState 1).withLevel 1
    let moved := (deep.succeedFrom () ((c.advance 3).withStream "lines")).context
    InHand (Usage.sameInput Nat)
      [moved, deep, c.withState 1, (c.advance 3).withStream "lines", c.advance 3, c] ∧
    moved.position = ⟨"lines", 3, 2, 1⟩ ∧
    ∃ s name o, moved =
      ((((Context.start ['é', '\n', 'a', 'b'] s).withStream name).withOptions o).advance 3).withLevel 1 ∧
      moved.position.column = (['é', '\n', 'a'].rtakeWhile (· ≠ '\n')).length ∧
      moved.remaining? = some ['b'] := by
  intro c deep moved
  have hstart : InHand (Usage.sameInput Nat) [c] := .more .none (.start _ _)
  have hadvance : InHand (Usage.sameInput Nat) [c.advance 3, c] :=
    .more hstart (.advance List.mem_cons_self (by decide) 3)
  have hname : InHand (Usage.sameInput Nat) [(c.advance 3).withStream "lines", c.advance 3, c] :=
    .more hadvance (.withStream List.mem_cons_self "lines")
  have hstate : InHand (Usage.sameInput Nat)
      [c.withState 1, (c.advance 3).withStream "lines", c.advance 3, c] :=
    .more hname (.withState (by simp) 1)
  have hdeep : InHand (Usage.sameInput Nat)
      [deep, c.withState 1, (c.advance 3).withStream "lines", c.advance 3, c] :=
    .more hstate (.nest List.mem_cons_self rfl)
  have hnamed : (c.advance 3).withStream "lines" ∈
      [deep, c.withState 1, (c.advance 3).withStream "lines", c.advance 3, c] := by simp
  have hmakes : Makes (Usage.sameInput Nat)
      [deep, c.withState 1, (c.advance 3).withStream "lines", c.advance 3, c] moved :=
    .succeedFrom List.mem_cons_self hnamed rfl ()
  have hmoved := InHand.more hdeep hmakes
  have hposition : moved.position = ⟨"lines", 3, 2, 1⟩ := by decide
  obtain ⟨-, s, name, o, k, -, hform, hindex, -, hcolumn, hrest, -⟩ :=
    normal_form_of_inHand hmoved List.mem_cons_self
  have hk : k = 3 := by
    rw [← hindex]
    decide
  subst hk
  exact ⟨hmoved, hposition, s, name, o, hform, hcolumn, hrest⟩

end StreamParser
